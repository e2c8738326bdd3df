import RoostCore.Lockstep.Ledger

/-! Recovery leaves no hole. A course is a match under its operations together with the
ledger of what the sessions were sent; over every course the match agrees with the ledger,
so a session that is broadcast to again has every frame it asked for. -/
namespace Roost.Lockstep
open Go List

namespace Ledger
variable {l : Ledger} {session other : Nat}

theorem note_get (event : Event) : (l.note event).episodes.get other =
      if other = event.session then follow (l.episodes.get event.session) event
      else l.episodes.get other :=
  Table.get_assign _ _ _ _

end Ledger

namespace Match
variable {m after : Match} {l l' : Ledger} {limit session : Nat} {extra : List Nat}

/-- At most one session is concerned, and nothing is sent. -/
theorem Follows.change (follows : m.Follows extra l) (session : Nat)
    (top : after.sequencer.next = m.sequencer.next)
    (others : ∀ other, other ≠ session → after.catchups.get other = m.catchups.get other)
    (episodes : ∀ other, other ≠ session → l'.episodes.get other = l.episodes.get other)
    (returns : ∀ r ∈ l'.returns, r.Gapless) (handed : l'.handed = l.handed)
    (bound : ∀ other, other ≠ session → m.Attached other → after.Attached other)
    (owed : Owed extra m.sequencer.next (after.catchups.get session) (l'.episodes.get session))
    (here : (l'.episodes.get session).isSome → after.Attached session) :
    after.Follows extra l' := by
  refine ⟨fun other => ?_, fun other open_ => ?_, returns, ?_⟩
  · rw [top]
    by_cases same : other = session
    · rw [same]
      exact owed
    · rw [others other same, episodes other same]
      exact follows.owed other
  · by_cases same : other = session
    · rw [same] at open_ ⊢
      exact here open_
    · rw [episodes other same] at open_
      exact bound other same (follows.attached other open_)
  · rw [handed]
    exact follows.gated

theorem Follows.hears (follows : m.Follows extra l) (event : Event)
    (silent : (l.note event).returns = l.returns ∧ (l.note event).handed = l.handed)
    (top : after.sequencer.next = m.sequencer.next)
    (others : ∀ other, other ≠ event.session → after.catchups.get other = m.catchups.get other)
    (bound : ∀ other, other ≠ event.session → m.Attached other → after.Attached other)
    (owed : Owed extra m.sequencer.next (after.catchups.get event.session)
      (follow (l.episodes.get event.session) event))
    (here : (follow (l.episodes.get event.session) event).isSome → after.Attached event.session) :
    after.Follows extra (l.note event) := by
  have now : (l.note event).episodes.get event.session =
      follow (l.episodes.get event.session) event := by
    rw [Ledger.note_get, if_pos rfl]
  refine follows.change event.session top others (fun other distinct => ?_)
    (silent.1 ▸ follows.gapless) silent.2 bound (now ▸ owed) (now ▸ here)
  rw [Ledger.note_get, if_neg distinct]

/-- Nothing that is still owed lies between a base a request has moved and the start of
the request. -/
theorem ask_base {ep : Episode} {first id : Nat} (low : (ep.ask first).base ≤ id)
    (high : id < first) : ep.base ≤ id := by
  rw [Episode.ask] at low
  split at low
  · exact low
  · dsimp only at low
    omega

theorem ask_covered (ep : Episode) (first : Nat) : (ep.ask first).covered = ep.covered := by
  rw [Episode.ask]
  split <;> rfl

/-- No request starts before the cursor of a session that waits for a snapshot and may
still fall back to paging. -/
def Keeps (m : Match) (session first : Nat) : Prop :=
  ∀ state ∈ m.catchups.get session, ∀ transfer ∈ state.snapshot,
    transfer.fallback = true → transfer.image = none → state.next ≤ first
  deriving Decidable

/-- The request leaves the cursor where it is, at or before its start. -/
theorem Tracks.ask (tracks : Tracks state ep) (kept : state.unservable = none →
      (∀ transfer, state.snapshot = some transfer →
        transfer.image = none ∧ transfer.fallback = true) → state.next ≤ first) :
    Tracks state (ep.ask first) := by
  intro served waiting id low high
  rw [ask_covered]
  have := kept served waiting
  exact tracks served waiting id (ask_base low (by omega)) high

/-- The request starts at the new cursor, which lies before the old one. -/
theorem Tracks.rewind (tracks : Tracks state ep) (served : state.unservable = none)
    (paging : state.snapshot = none) (cursor : new.next = first) (before : first ≤ state.next) :
    Tracks new (ep.ask first) := by
  intro _ _ id low high
  rw [ask_covered]
  exact tracks served (fun _ held => by rw [paging] at held; contradiction) id
    (ask_base low (by omega)) (by omega)

/-- A new recovery starts at the request; what an earlier one has sent still counts. -/
theorem Owed.opened (owed : Owed [] top none episode) (cursor : state.next = first)
    (within : first ≤ top) :
    Owed [] top (some state) (follow episode (.request session first)) := by
  cases episode with
  | none =>
    intro _ _ id low high
    have : first ≤ id := low
    omega
  | some ep =>
    intro _ _ id low high
    change id ∈ (ep.ask first).covered
    rw [ask_covered]
    exact (owed id (ask_base low (by omega)) (by omega)).resolve_right not_mem_nil

/-- What holds of a match and its ledger between two operations. -/
structure Good (m : Match) (committed : Bool) (limit : Nat) (l : Ledger) : Prop where
  committed : m.committed = committed
  sound : m.Sound limit
  follows : m.Follows [] l

variable {committed : Bool}

theorem Sound.setCatchup (sound : m.Sound limit) (regular : Regular m.sequencer.next limit state) :
    (m.setCatchup session state).Sound limit :=
  { sound with
    states := fun other found held => by
      rw [Match.setCatchup, Table.get_set] at held
      split at held
      · cases held
        exact regular
      · exact sound.states other found held }

theorem Regular.rewind (regular : Regular top limit state) (positive : 0 < first)
    (before : first ≤ state.next) : Regular top limit { state with next := first } := by
  refine ⟨positive, Nat.le_trans before regular.cursor, regular.shaped,
    fun send frames under served page => ?_, regular.image, regular.settled⟩
  obtain ⟨start, rest⟩ := regular.page send frames under served page
  exact ⟨Nat.le_trans before start, rest⟩

theorem Regular.fresh (positive : 0 < first) (within : first ≤ top) :
    Regular top limit { next := first } :=
  .idle positive within rfl nofun nofun

theorem Regular.begun (fallback : Bool) (regular : Regular top limit state)
    (served : state.unservable = none) : Regular top limit (m.beginSnapshot state fallback) :=
  .idle regular.positive regular.cursor rfl
    (fun transfer image same held => by cases same; contradiction)
    (fun unserved => by rw [beginSnapshot, served] at unserved; contradiction)

theorem Begins.regular (begins : m.Begins state new) (regular : Regular top limit state)
    (served : state.unservable = none) : Regular top limit new := by
  cases begins with
  | pages => exact regular
  | snapshot fallback => exact regular.begun fallback served

theorem Begins.next {state next : CatchupState} (begins : m.Begins state next) :
    next.next = state.next := by
  cases begins <;> rfl

theorem Sound.edit (sound : m.Sound limit) (edit : m.Edit ask after events) :
    after.Sound limit := by
  cases edit with
  | stay | covered | repeats => exact sound
  | binds sessions spectators owners bound => exact { sound with }
  | leaves session after drops bound =>
    rw [drops.same]
    refine { sound with states := fun other state held => ?_, fetch := fun request asked => ?_ }
    · rw [drops.entries] at held
      split at held
      · contradiction
      · exact sound.states other state held
    · rcases drops.fetch with same | none
      · exact sound.fetch request (same ▸ asked)
      rw [none] at asked
      contradiction
  | opens session first next attached free positive within begins =>
    exact sound.setCatchup (begins.regular (.fresh positive within) rfl)
  | rewinds session first state next attached held served paging positive before begins =>
    exact sound.setCatchup
      (begins.regular ((sound.states session state held).rewind positive before) served)
  | converts session state attached held served =>
    exact sound.setCatchup ((sound.states session state held).begun false served)

section
variable (good : m.Good committed limit l)
include good

theorem Good.tracks (held : m.catchups.get session = some state) :
    ∃ ep, l.episodes.get session = some ep ∧ Tracks state ep := by
  have owed := good.follows.owed session
  rw [held] at owed
  cases open_ : l.episodes.get session with
  | none =>
    rw [open_] at owed
    exact owed.elim
  | some ep =>
    rw [open_] at owed
    exact ⟨ep, rfl, owed⟩

theorem Good.repeats (attached : m.Attached session)
    (held : m.catchups.get session = some state) (kept : state.unservable = none →
      (∀ transfer, state.snapshot = some transfer →
        transfer.image = none ∧ transfer.fallback = true) → state.next ≤ first) :
    m.Follows [] (l.note (.request session first)) := by
  obtain ⟨ep, open_, tracks⟩ := good.tracks held
  refine good.follows.hears (.request session first) ⟨append_nil _, append_nil _⟩ rfl
    (fun _ _ => rfl) (fun _ _ bound => bound) ?_ fun _ => attached
  rw [Event.session, held, open_]
  exact tracks.ask kept

theorem Good.enters (attached : m.Attached session) (owed : Owed [] m.sequencer.next (some new)
      (follow (l.episodes.get session) (.request session first))) :
    (m.setCatchup session new).Follows [] (l.note (.request session first)) := by
  refine good.follows.hears (.request session first) ⟨append_nil _, append_nil _⟩ rfl
    (fun other distinct => Table.get_set_ne _ _ distinct) (fun _ _ bound => bound) ?_ fun _ => attached
  rw [setCatchup, Event.session, Table.get_set_self]
  exact owed

/-- Every operation between two ticks keeps the match and the ledger together. -/
theorem Good.edit (edit : m.Edit ask after events)
    (forward : ∀ session first, ask = some (session, first) → m.Keeps session first) :
    after.Good committed limit (events.foldl Ledger.note l) := by
  have flag : after.committed = m.committed := by
    cases edit with
    | leaves session after drops bound => rw [drops.same]
    | _ => rfl
  refine ⟨flag.trans good.committed, good.sound.edit edit, ?_⟩
  have follows := good.follows
  cases edit with
  | stay => exact follows
  | binds sessions spectators owners bound =>
    exact ⟨follows.owed, fun other open_ => bound other (follows.attached other open_),
      follows.gapless, follows.gated⟩
  | leaves session after drops bound =>
    refine follows.hears (.ended session) ⟨append_nil _, append_nil _⟩ ?_
      (fun other distinct => ?_) bound ?_ nofun
    · rw [drops.same]
    · exact (drops.entries other).trans (if_neg distinct)
    · rw [drops.entries, Event.session, if_pos rfl]
      trivial
  | covered session first state transfer attached held phase asked =>
    refine good.repeats attached held fun _ waiting => ?_
    obtain ⟨image, fallback⟩ := waiting transfer phase
    exact forward session first asked state held transfer phase fallback image
  | repeats session first state attached held later =>
    exact good.repeats attached held fun _ _ => later
  | opens session first next attached free positive within begins =>
    have owed := follows.owed session
    rw [free] at owed
    exact good.enters attached (owed.opened begins.next within)
  | rewinds session first state next attached held served paging positive before begins =>
    obtain ⟨ep, open_, tracks⟩ := good.tracks held
    refine good.enters attached ?_
    rw [open_]
    exact tracks.rewind served paging begins.next before
  | converts session state attached held served =>
    obtain ⟨ep, open_, -⟩ := good.tracks held
    refine follows.change session rfl (fun other distinct => Table.get_set_ne _ _ distinct)
      (fun _ _ => rfl) follows.gapless rfl (fun _ _ bound => bound) ?_ fun _ => attached
    rw [setCatchup, Table.get_set_self]
    change Owed [] _ _ (l.episodes.get session)
    rw [open_]
    -- Without a fallback nothing is owed until the snapshot has been sent.
    intro _ waiting
    have fallback := (waiting _ rfl).2
    contradiction

end

theorem mem_broadcastOrder (attached : m.Attached session) : session ∈ m.broadcastOrder := by
  rw [broadcastOrder, mem_append]
  rcases attached with ⟨player, seated⟩ | watching
  · refine .inl (mem_filterMap.mpr ⟨player, ?_, seated⟩)
    rw [mem_mergeSort, Table.map_fst_pairs, Table.mem_keys_iff, seated]
    rfl
  · refine .inr ?_
    rw [mem_mergeSort, Table.map_fst_pairs, Table.mem_keys_iff]
    exact watching

end Match

namespace Ledger
variable {l : Ledger} {sessions : List Nat} {event : Nat → Event}

theorem all_ended (own : ∀ session, (event session).session = session)
    (ends : ∀ session ep, follow ep (event session) = none) (other : Nat) :
    ((sessions.map event).foldl note l).episodes.get other =
      if other ∈ sessions then none else l.episodes.get other := by
  induction sessions generalizing l with
  | nil => rw [if_neg not_mem_nil]; rfl
  | cons session rest ih =>
    rw [map_cons, foldl_cons, ih, note_get, own, ends]
    by_cases same : other = session
    · simp [same]
    · simp [same]

end Ledger

namespace Match
variable {m : Match} {l : Ledger} {limit session : Nat} {committed : Bool}

theorem Sound.close (sound : m.Sound limit) : m.close.1.Sound limit :=
  { sound with
    fetch := nofun
    states := fun other state held => by rw [Match.close, Table.get_empty] at held; contradiction }

theorem Sound.submitInput (sound : m.Sound limit) (player : Int) (frame : Nat)
    (payload : Payload) : (m.submitInput player frame payload).Sound limit := by
  have next := (m.sequencer.submitInput_stores player frame payload).next
  rw [Match.submitInput]
  split
  · exact sound
  exact
    { live := next ▸ sound.live, bounded := next ▸ sound.bounded, batch := sound.batch
      below := next ▸ sound.below, history := next ▸ sound.history
      recent := next ▸ sound.recent, states := next ▸ sound.states, fetch := sound.fetch }

theorem close_good (good : m.Good committed limit l) :
    m.close.1.Good committed limit (m.close.2.foldl Ledger.note l) := by
  have ended (other : Nat) : (m.close.2.foldl Ledger.note l).episodes.get other = none := by
    rw [close, Ledger.all_ended (fun _ => rfl) fun _ _ => rfl]
    split
    · rfl
    rename_i absent
    cases open_ : l.episodes.get other with
    | none => rfl
    | some ep =>
      exact absurd (mem_broadcastOrder (good.follows.attached other (by rw [open_]; rfl))) absent
  have silent (sessions : List Nat) (l : Ledger) :
      ((sessions.map Event.ended).foldl Ledger.note l).returns = l.returns ∧
        ((sessions.map Event.ended).foldl Ledger.note l).handed = l.handed := by
    induction sessions generalizing l with
    | nil => exact ⟨rfl, rfl⟩
    | cons session rest ih =>
      obtain ⟨returns, handed⟩ := ih (l.note (.ended session))
      exact ⟨returns.trans (append_nil _), handed.trans (append_nil _)⟩
  refine ⟨good.committed, good.sound.close, fun other => ?_, fun other open_ => ?_, ?_, ?_⟩
  · rw [ended, close]
    trivial
  · rw [ended] at open_
    contradiction
  · rw [close, (silent m.broadcastOrder l).1]
    exact good.follows.gapless
  · rw [close, (silent m.broadcastOrder l).2]
    exact good.follows.gated

theorem submitInput_good (good : m.Good committed limit l) (player : Int) (frame : Nat)
    (payload : Payload) : (m.submitInput player frame payload).Good committed limit l := by
  have sound := good.sound.submitInput player frame payload
  have next := (m.sequencer.submitInput_stores player frame payload).next
  rw [submitInput] at sound ⊢
  split
  · exact good
  rename_i running
  rw [if_neg running] at sound
  refine ⟨good.committed, sound, fun other => ?_, good.follows.attached, good.follows.gapless,
    good.follows.gated⟩
  have owed := good.follows.owed other
  rw [← next] at owed
  exact owed

theorem trimHistory_good (good : m.Good committed limit l) (keep : Nat) :
    (m.trimHistory keep).Good committed limit l :=
  ⟨good.committed, good.sound.trimHistory keep, { good.follows with }⟩

end Match

end Roost.Lockstep
