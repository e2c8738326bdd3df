import RoostCore.Lockstep.Moves

/-! What the operations of a match between two ticks can do to it. -/
namespace Roost.Lockstep
open Go Option

namespace Match

/-- The session is bound to a seat or watches. -/
def Attached (m : Match) (session : Nat) : Prop :=
  (∃ player, m.sessions.get player = some session) ∨ (m.spectators.get session).isSome

/-- The recovery of one session is dropped; seats and spectators may change. -/
structure Drops (m : Match) (session : Nat) (after : Match) : Prop where
  entries : ∀ other, after.catchups.get other =
    if other = session then none else m.catchups.get other
  fetch : after.fetch = m.fetch ∨ after.fetch = none
  same : after = { m with
                   catchups := after.catchups, fetch := after.fetch, sessions := after.sessions
                   spectators := after.spectators, sessionOwners := after.sessionOwners }

/-- The recovery that a request begins at the cursor of a state: pages, or a snapshot. -/
inductive Begins (m : Match) (state : CatchupState) : CatchupState → Prop where
  | pages : Begins m state state
  | snapshot (fallback : Bool) : Begins m state (m.beginSnapshot state fallback)

/-- One operation, with the events it is seen by; `ask` is the request it may be. -/
inductive Edit (m : Match) (ask : Option (Nat × Nat)) : Match → List Event → Prop where
  | stay : Edit m ask m []
  | binds (sessions : Table Int Nat) (spectators : Table Nat Unit) (owners : Table Nat Int)
      (bound : ∀ other, m.Attached other →
        (∃ player, sessions.get player = some other) ∨ (spectators.get other).isSome) :
      Edit m ask { m with sessions, spectators, sessionOwners := owners } []
  | leaves (session : Nat) (after : Match) (drops : m.Drops session after)
      (bound : ∀ other, other ≠ session → m.Attached other → after.Attached other) :
      Edit m ask after [.ended session]
  | covered (session first : Nat) (state : CatchupState) (transfer : SnapshotTransfer)
      (attached : m.Attached session) (held : m.catchups.get session = some state)
      (phase : state.snapshot = some transfer) (asked : ask = some (session, first)) :
      Edit m ask m [.request session first]
  | repeats (session first : Nat) (state : CatchupState) (attached : m.Attached session)
      (held : m.catchups.get session = some state) (later : state.next ≤ first) :
      Edit m ask m [.request session first]
  | opens (session first : Nat) (next : CatchupState) (attached : m.Attached session)
      (free : m.catchups.get session = none) (positive : 0 < first)
      (within : first ≤ m.sequencer.next) (begins : m.Begins { next := first } next) :
      Edit m ask (m.setCatchup session next) [.request session first]
  | rewinds (session first : Nat) (state next : CatchupState) (attached : m.Attached session)
      (held : m.catchups.get session = some state) (served : state.unservable = none)
      (paging : state.snapshot = none) (positive : 0 < first) (before : first ≤ state.next)
      (begins : m.Begins { state with next := first } next) :
      Edit m ask (m.setCatchup session next) [.request session first]
  | converts (session : Nat) (state : CatchupState) (attached : m.Attached session)
      (held : m.catchups.get session = some state) (served : state.unservable = none) :
      Edit m ask (m.setCatchup session (m.beginSnapshot state false)) []

section
variable {m : Match} {session : Nat}

theorem dropCatchup_eq (m : Match) (session : Nat) : ∃ fetch, (fetch = m.fetch ∨ fetch = none) ∧
    m.dropCatchup session = { m with catchups := m.catchups.remove session, fetch } := by
  rw [dropCatchup]
  split
  · rw [releaseIdleFetch]
    split
    · exact ⟨_, .inl rfl, rfl⟩
    · exact ⟨none, .inr rfl, rfl⟩
  · rename_i absent
    refine ⟨m.fetch, .inl rfl, ?_⟩
    rw [Table.remove_absent (not_isSome_iff_eq_none.mp absent)]

theorem dropCatchup_alike (m : Match) (session : Nat) : (m.dropCatchup session).Alike m := by
  obtain ⟨fetch, -, same⟩ := dropCatchup_eq m session
  rw [same]
  rfl

theorem dropCatchup_drops (m : Match) (session : Nat) : m.Drops session (m.dropCatchup session) := by
  obtain ⟨fetch, kept, same⟩ := dropCatchup_eq m session
  rw [same]
  exact ⟨fun other => Table.get_assign m.catchups session other none, kept, rfl⟩

theorem Drops.bind (drops : m.Drops session after) (sessions : Table Int Nat)
    (spectators : Table Nat Unit) (owners : Table Nat Int) : m.Drops session
      { after with sessions, spectators, sessionOwners := owners } := by
  refine ⟨drops.entries, drops.fetch, ?_⟩
  conv_lhs => rw [drops.same]

/-- A seat is given to another session, or given up. -/
theorem seat_edit {sessions : Table Int Nat} (owners : Table Nat Int)
    (seated : m.sessions.get player = some previous)
    (others : ∀ seat, seat ≠ player → sessions.get seat = (m.dropCatchup previous).sessions.get seat) :
    m.Edit ask { m.dropCatchup previous with sessions, sessionOwners := owners }
      [.ended previous] := by
  have alike := dropCatchup_alike m previous
  refine .leaves previous _ ((dropCatchup_drops m previous).bind _ _ _) fun other distinct attached => ?_
  rw [Attached, alike.get Match.spectators fun _ _ _ _ => rfl]
  rcases attached with ⟨seat, held⟩ | watching
  · refine .inl ⟨seat, ?_⟩
    rw [others, alike.get Match.sessions fun _ _ _ _ => rfl, held]
    rintro rfl
    rw [seated] at held
    exact distinct (some.inj held).symm
  · exact .inr watching

theorem attach_edit (m : Match) (player : Int) (session : Nat) :
    m.Edit none (m.attach player session).1 (m.attach player session).2.1 := by
  rw [attach]
  split
  · exact .stay
  split
  · exact .stay
  split
  · exact .stay
  split
  · rename_i vacant
    refine .binds _ m.spectators _ fun other attached => ?_
    rcases attached with ⟨seat, held⟩ | watching
    · refine .inl ⟨seat, ?_⟩
      rw [Table.get_set_ne, held]
      rintro rfl
      rw [vacant] at held
      contradiction
    · exact .inr watching
  · rename_i previous seated
    split
    · exact .stay
    · exact seat_edit _ seated fun seat apart => Table.get_set_ne _ _ apart

theorem detach_edit (m : Match) (player : Int) : m.Edit none (m.detach player).1 (m.detach player).2 := by
  rw [detach]
  split
  · exact .stay
  rename_i session seated
  exact seat_edit _ seated fun seat apart => Table.get_remove_ne _ apart

theorem detachSession_edit (m : Match) (player : Int) (session : Nat) :
    m.Edit none (m.detachSession player session).1 (m.detachSession player session).2.1 := by
  rw [detachSession]
  split
  · exact .stay
  · exact detach_edit m player

theorem attachSpectator_edit (m : Match) (session : Nat) :
    m.Edit none (m.attachSpectator session).1 [] := by
  rw [attachSpectator]
  split
  · exact .stay
  split
  · exact .stay
  refine .binds m.sessions _ _ fun other attached => ?_
  rcases attached with seated | watching
  · exact .inl seated
  refine .inr ?_
  rw [Table.get_set]
  split
  · rfl
  · exact watching

theorem detachSpectator_edit (m : Match) (session : Nat) :
    m.Edit none (m.detachSpectator session).1 (m.detachSpectator session).2 := by
  rw [detachSpectator]
  split
  · exact .stay
  generalize unbound : ({ m with
    spectators := m.spectators.remove session
    sessionOwners := m.sessionOwners.remove session } : Match) = left
  have alike := dropCatchup_alike left session
  have drops := dropCatchup_drops left session
  refine .leaves session _ ⟨?_, ?_, ?_⟩ fun other distinct attached => ?_
  · rw [← unbound] at drops ⊢
    exact drops.entries
  · rw [← unbound] at drops ⊢
    exact drops.fetch
  · conv_lhs => rw [drops.same]
    rw [← unbound]
  · rw [Attached, alike.get Match.sessions fun _ _ _ _ => rfl,
      alike.get Match.spectators fun _ _ _ _ => rfl, ← unbound]
    rcases attached with seated | watching
    · exact .inl seated
    · refine .inr ?_
      rwa [Table.get_remove_ne _ distinct]

theorem routeRecovery_edit (attached : m.Attached session)
    (held : m.catchups.get session = existing)
    (served : existing.bind CatchupState.unservable = none)
    (paging : existing.bind CatchupState.snapshot = none) (positive : 0 < first)
    (within : first ≤ m.sequencer.next) :
    m.Edit (some (session, first)) (m.routeRecovery session existing first) [.request session first] := by
  cases existing with
  | none =>
    rw [routeRecovery]
    dsimp only
    split
    · exact .opens session first _ attached held positive within .pages
    · exact .opens session first _ attached held positive within (.snapshot _)
  | some state =>
    rw [routeRecovery]
    dsimp only
    split
    · rename_i later
      exact .repeats session first state attached held later
    rename_i earlier
    have before := Nat.le_of_not_le earlier
    split
    · exact .rewinds session first state _ attached held served paging positive before .pages
    · exact .rewinds session first state _ attached held served paging positive before
        (.snapshot _)

theorem startCatchup_edit (m : Match) (asked : Nat) (attached : m.Attached session)
    (live : 0 < m.sequencer.next) :
    m.Edit (some (session, max asked 1)) (m.startCatchup session asked).1
      (m.startCatchup session asked).2.1 := by
  rw [startCatchup]
  split
  · exact .stay
  split
  · exact .stay
  split
  · exact .stay
  have positive : 0 < max asked 1 := by omega
  have within : max asked 1 ≤ m.sequencer.next := by omega
  generalize max asked 1 = first at positive within ⊢
  dsimp only
  split
  · exact .stay
  rename_i served
  split
  · rename_i busy
    obtain ⟨transfer, covering⟩ := isSome_iff_exists.mp busy
    obtain ⟨state, held, phase⟩ := bind_eq_some_iff.mp covering
    exact .covered session first state transfer attached held phase rfl
  · rename_i free
    have paging := not_isSome_iff_eq_none.mp free
    split
    · exact routeRecovery_edit attached rfl served paging positive within
    split
    · rename_i absent
      exact .opens session first _ attached absent positive within .pages
    rename_i state held
    rw [held] at served paging
    split
    · rename_i before
      exact .rewinds session first state _ attached held served paging positive
        (Nat.le_of_lt before) .pages
    · rename_i later
      exact .repeats session first state attached held (Nat.not_lt.mp later)

theorem startSnapshot_edit (m : Match) (attached : m.Attached session)
    (live : 0 < m.sequencer.next) :
    m.Edit none (m.startSnapshot session).1 (m.startSnapshot session).2.1 := by
  rw [startSnapshot]
  split
  · exact .stay
  split
  · exact .stay
  split
  · exact .stay
  split
  · rename_i absent
    exact .opens session m.sequencer.next _ attached absent live (Nat.le_refl _)
      (.snapshot false)
  · rename_i state held
    split
    · exact .stay
    rename_i served
    split
    · exact .stay
    · exact .converts session state attached held served

end

end Match

inductive Op where
  | attach (player : Int) (session : Nat)
  | detach (player : Int)
  | detachSession (player : Int) (session : Nat)
  | attachSpectator (session : Nat)
  | detachSpectator (session : Nat)
  | catchup (player : Int) (first : Nat)
  | spectatorCatchup (session first : Nat)
  | snapshot (player : Int)
  | spectatorSnapshot (session : Nat)
  | submit (player : Int) (frame : Nat) (payload : Payload)
  | tick (input : TickInput)
  | trim (keep : Nat)
  | close

def Match.perform (sha256 : Bytes → SnapshotDigest) (m : Match) : Op → Match × List Event
  | .attach player session => ((m.attach player session).1, (m.attach player session).2.1)
  | .detach player => m.detach player
  | .detachSession player session =>
      ((m.detachSession player session).1, (m.detachSession player session).2.1)
  | .attachSpectator session => ((m.attachSpectator session).1, [])
  | .detachSpectator session => m.detachSpectator session
  | .catchup player first =>
      ((m.startPlayerCatchup player first).1, (m.startPlayerCatchup player first).2.1)
  | .spectatorCatchup session first =>
      ((m.spectatorCatchup session first).1, (m.spectatorCatchup session first).2.1)
  | .snapshot player => ((m.startPlayerSnapshot player).1, (m.startPlayerSnapshot player).2.1)
  | .spectatorSnapshot session =>
      ((m.spectatorSnapshot session).1, (m.spectatorSnapshot session).2.1)
  | .submit player frame payload => (m.submitInput player frame payload, [])
  | .tick input => (m.tick sha256 input).getD (m, [])
  | .trim keep => (m.trimHistory keep, [])
  | .close => m.close

/-- The operations other than ticks, inputs, trims and the end. -/
def Op.edits : Op → Bool
  | .submit _ _ _ => false
  | .tick _ => false
  | .trim _ => false
  | .close => false
  | _ => true

/-- The session and the start of the request that an operation makes. -/
def Match.asks (m : Match) : Op → Option (Nat × Nat)
  | .catchup player first => (m.sessions.get player).map fun session => (session, max first 1)
  | .spectatorCatchup session first => some (session, max first 1)
  | _ => none

theorem Match.watches {m : Match} (watching : ¬ (m.spectators.get session).isNone = true) :
    (m.spectators.get session).isSome := by
  rwa [isNone_iff_eq_none, ← ne_eq, ne_none_iff_isSome] at watching

theorem Match.perform_edit {m : Match} (live : 0 < m.sequencer.next) (edits : op.edits = true) :
    m.Edit (m.asks op) (m.perform sha256 op).1 (m.perform sha256 op).2 := by
  cases op with
  | attach player session => exact attach_edit m player session
  | detach player => exact detach_edit m player
  | detachSession player session => exact detachSession_edit m player session
  | attachSpectator session => exact attachSpectator_edit m session
  | detachSpectator session => exact detachSpectator_edit m session
  | catchup player first =>
    rw [perform, startPlayerCatchup, asks]
    split
    · exact .stay
    rename_i session seated
    rw [seated]
    exact startCatchup_edit m first (.inl ⟨player, seated⟩) live
  | spectatorCatchup session first =>
    rw [perform, spectatorCatchup, asks]
    split
    · exact .stay
    · rename_i watching
      exact startCatchup_edit m first (.inr (watches watching)) live
  | snapshot player =>
    rw [perform, startPlayerSnapshot]
    split
    · exact .stay
    · rename_i session seated
      exact startSnapshot_edit m (.inl ⟨player, seated⟩) live
  | spectatorSnapshot session =>
    rw [perform, spectatorSnapshot]
    split
    · exact .stay
    · rename_i watching
      exact startSnapshot_edit m (.inr (watches watching)) live
  | _ => contradiction

end Roost.Lockstep
