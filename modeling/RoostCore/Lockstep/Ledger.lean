import RoostCore.Lockstep.Edits
import RoostCore.Lockstep.Loops

/-! What a session has been sent since it asked to be caught up. The ledger is kept from
the events alone, as somebody at the other end could; the match has to be shown to agree
with it. -/
namespace Roost.Lockstep
open Go
open List hiding after below count get head min

/-- A recovery under way: the frame it is counted from and the frames of the pages that
were sent since. -/
structure Episode where
  base : Nat
  covered : List Nat := []
  /-- A snapshot has been sent, so that requests no longer move the base. -/
  restored : Bool := false
  deriving DecidableEq

def Episode.ask (ep : Episode) (first : Nat) : Episode :=
  if ep.restored then ep else { ep with base := min ep.base first }

/-- A session that is broadcast to again. -/
structure Return where
  base : Nat
  covered : List Nat
  packet : List Nat
  deriving DecidableEq

/-- Pages and packet cover every frame from the base up to the last one. -/
def Return.Gapless (r : Return) : Prop :=
  ∃ latest, r.packet.getLast? = some latest ∧
    ∀ id, r.base ≤ id → id ≤ latest → id ∈ r.covered ∨ id ∈ r.packet

/-- A message for the reliable sender, with the committed frame of that tick, if the match
reads one, and the start of the history. -/
structure Handed where
  message : Message
  committed : Option Nat
  start : Nat
  deriving DecidableEq

/-- Nothing of the message is ahead of the committed frame, and a page is within the
history. -/
def Handed.Gated (h : Handed) : Prop :=
  match h.message with
  | .page frames => ∀ frame ∈ frames,
      h.start ≤ frame.id ∧ ∀ committed ∈ h.committed, frame.id ≤ committed
  | .notice _ => True
  | .chunks _ image _ => ∀ committed ∈ h.committed, image.snapshot.frame ≤ committed

structure Ledger where
  episodes : Table Nat Episode := ∅
  returns : List Return := []
  handed : List Handed := []
  /-- The committed frame of the present tick. -/
  reading : Option Nat := none

def Event.session : Event → Nat
  | .request session _ => session
  | .page session _ => session
  | .snapshot session _ => session
  | .ended session => session
  | .broadcast session _ => session
  | .handed session _ _ _ => session

/-- How an event changes the recovery of its session. -/
def follow (episode : Option Episode) : Event → Option Episode
  | .request _ first => some (episode.elim { base := first } fun ep => ep.ask first)
  | .page _ frames => episode.map fun ep => { ep with covered := ep.covered ++ frames.map Frame.id }
  | .snapshot _ frame => episode.map fun _ => { base := frame + 1, restored := true }
  | .ended _ => none
  | .broadcast _ _ => none
  | .handed _ _ _ _ => episode

namespace Ledger

/-- A broadcast ends the recovery of its session. -/
def returned (l : Ledger) : Event → Option Return
  | .broadcast session packet => (l.episodes.get session).map fun ep =>
      { base := ep.base, covered := ep.covered, packet := packet.map Frame.id }
  | _ => none

def sent (l : Ledger) : Event → Option Handed
  | .handed _ message _ start => some { message, committed := l.reading, start }
  | _ => none

def note (l : Ledger) (event : Event) : Ledger where
  episodes := l.episodes.assign event.session (follow (l.episodes.get event.session) event)
  returns := l.returns ++ (l.returned event).toList
  handed := l.handed ++ (l.sent event).toList
  reading := l.reading

variable {l : Ledger} {session other : Nat} {events : List Event}

theorem notes_get (own : ∀ event ∈ events, event.session = session) :
    (events.foldl note l).episodes.get other =
      if other = session then events.foldl follow (l.episodes.get session)
      else l.episodes.get other := by
  induction events generalizing l with
  | nil =>
    split
    · rename_i same
      rw [same]
      rfl
    · rfl
  | cons event rest ih =>
    have now := own event mem_cons_self
    rw [foldl_cons, ih fun e member => own e (mem_cons_of_mem event member)]
    simp only [note, Table.get_assign, now, if_true, foldl_cons]
    split <;> rfl

theorem notes_reading : (events.foldl note l).reading = l.reading := by
  induction events generalizing l with
  | nil => rfl
  | cons event rest ih =>
    rw [foldl_cons, ih]
    rfl

theorem notes_handed (member : h ∈ (events.foldl note l).handed) :
    h ∈ l.handed ∨ ∃ message head start, ∃ session,
      Event.handed session message head start ∈ events ∧
        h = { message, committed := l.reading, start } := by
  induction events generalizing l with
  | nil => exact .inl member
  | cons event rest ih =>
    rcases ih member with old | ⟨message, head, start, session, later, made⟩
    · rcases mem_append.mp old with before | now
      · exact .inl before
      cases event with
      | handed s message head start =>
        exact .inr ⟨message, head, start, s, mem_cons_self, mem_singleton.mp now⟩
      | _ => contradiction
    · exact .inr ⟨message, head, start, session, mem_cons_of_mem event later, made⟩

end Ledger

/-- What a session in recovery sees of a step: no request and no broadcast. -/
def Event.Quiet (session : Nat) : Event → Prop
  | .page s _ => s = session
  | .snapshot s _ => s = session
  | .ended s => s = session
  | .handed s _ _ _ => s = session
  | .request _ _ => False
  | .broadcast _ _ => False

theorem Event.Quiet.session {event : Event} {session : Nat} (quiet : event.Quiet session) :
    event.session = session := by
  cases event <;> first | exact quiet | exact quiet.elim

theorem Ledger.notes_returns {events : List Event} (quiet : ∀ event ∈ events, event.Quiet session) :
    (events.foldl note l).returns = l.returns := by
  induction events generalizing l with
  | nil => rfl
  | cons event rest ih =>
    have now := quiet event mem_cons_self
    rw [foldl_cons, ih fun e member => quiet e (mem_cons_of_mem event member), note]
    cases event with
    | broadcast => exact now.elim
    | _ => exact append_nil _

namespace Match

/-- Nothing between the base and the cursor is missing, unless a snapshot will replace it
or the recovery has failed. -/
def Tracks (state : CatchupState) (ep : Episode) : Prop :=
  state.unservable = none →
    (∀ transfer, state.snapshot = some transfer →
      transfer.image = none ∧ transfer.fallback = true) →
    ∀ id, ep.base ≤ id → id < state.next → id ∈ ep.covered

/-- What the match owes a session; `extra` are the frames of a packet that is about to be
sent. -/
def Owed (extra : List Nat) (top : Nat) : Option CatchupState → Option Episode → Prop
  | some state, some ep => Tracks state ep
  | some _, none => False
  | none, some ep => ∀ id, ep.base ≤ id → id < top → id ∈ ep.covered ∨ id ∈ extra
  | none, none => True

structure Follows (extra : List Nat) (m : Match) (l : Ledger) : Prop where
  owed : ∀ session,
    Owed extra m.sequencer.next (m.catchups.get session) (l.episodes.get session)
  attached : ∀ session, (l.episodes.get session).isSome → m.Attached session
  gapless : ∀ r ∈ l.returns, r.Gapless
  gated : ∀ h ∈ l.handed, h.Gated

section
variable {m after : Match} {stage : Stage} {limit head session top : Nat} {state : CatchupState}
  {entry : Option CatchupState} {events : List Event} {ep : Episode} {extra : List Nat}

theorem Tracks.page (tracks : Tracks state ep) (regular : Regular top limit state)
    (under : state.inflight = some send) (served : state.unservable = none)
    (message : send.message = .page frames) {id : Nat} (low : ep.base ≤ id)
    (high : id < paged state send) : id ∈ ep.covered ++ frames.map Frame.id := by
  obtain ⟨start, -, -, ids⟩ := regular.page send frames under served message
  have paging : state.snapshot = none := by
    rcases regular.shaped send under served with ⟨_, -, paging⟩ | ⟨_, _, _, _, chunks, -⟩
    · exact paging
    · rw [message] at chunks
      contradiction
  have before (below : id < state.next) : id ∈ ep.covered :=
    tracks served (fun transfer held => by rw [paging] at held; contradiction) id low below
  rw [mem_append, ids, mem_range'_1]
  rw [paged] at high
  split at high
  · by_cases below : id < state.next
    · exact .inl (before below)
    · exact .inr (by omega)
  · exact .inl (before high)

theorem image_frame {id : UInt64} (regular : Regular top limit state)
    (under : state.inflight = some send) (served : state.unservable = none)
    (message : send.message = .chunks id image bounds) (phase : state.snapshot = some transfer) :
    transfer.image = some image := by
  rcases regular.shaped send under served with ⟨frames, page, -⟩ | chunks
  · rw [message] at page
    contradiction
  obtain ⟨id', image', bounds', transfer', same, phase', ready⟩ := chunks
  rw [message] at same
  cases same
  rw [phase] at phase'
  cases phase'
  exact ready

theorem Owed.move (sound : m.Sound limit) (filled : m.history.frames ≠ [])
    (regular : Regular m.sequencer.next limit state)
    (near : stage.early → ∀ cursor id, m.history.latest < cursor + m.depth → cursor ≤ id →
      0 < id → id < m.sequencer.next → id ∈ extra)
    (moves : Moves m stage limit head session state entry events)
    (owed : Owed extra m.sequencer.next (some state) (some ep)) :
    Owed extra m.sequencer.next entry (events.foldl follow (some ep)) := by
  have latest := sound.history.latest filled
  have tracks : Tracks state ep := owed
  cases moves with
  | ended => trivial
  | paged send frames under message served =>
    intro _ _ id low high
    exact tracks.page regular under served message low high
  | pagedLive send frames under message served ahead =>
    intro id low high
    exact .inl (tracks.page regular under served message low (by omega))
  | chunked send id image bounds transfer result failures under message served phase =>
    intro _ waiting
    have ready := image_frame regular under served message phase
    have none := (waiting _ rfl).1
    rw [ready] at none
    contradiction
  | restored send id image bounds transfer failures under message served phase =>
    intro _ _ id low high
    exact absurd high (Nat.not_lt.mpr low)
  | restoredLive send id image bounds transfer under message served phase ahead =>
    intro id low high
    have : image.snapshot.frame + 1 ≤ id := low
    omega
  | live before idle served paging close =>
    intro id low high
    by_cases below : id < state.next
    · exact .inl (tracks served (fun _ held => by rw [paging] at held; contradiction) id low below)
    · have := regular.positive
      exact .inr (near before state.next id close (by omega) (by omega) high)
  | given transfer image phase waiting offers counted =>
    intro _ other
    have none := (other _ rfl).1
    contradiction
  | fellBack transfer phase waiting fallback =>
    intro served _ id low high
    refine tracks served (fun other held => ?_) id low high
    rw [phase] at held
    cases held
    exact ⟨waiting, fallback⟩
  | refused | trimmed =>
    intro open_
    contradiction
  | begun served =>
    intro _ other
    have fallback := (other _ rfl).2
    contradiction
  | caughtUp count idle served phase kept allowed read =>
    intro id low high
    have ids := sound.history.readRange_ids filled kept count
    rw [read, map_nil] at ids
    have short := congrArg length ids
    rw [length_nil, length_range'] at short
    have counts : 0 < count := by
      have := sound.batch
      rw [pageLimit] at allowed
      repeat' split at allowed
      all_goals first
        | contradiction
        | (cases allowed; omega)
    exact .inl (tracks served (fun _ held => by rw [phase] at held; contradiction) id low
      (by omega))
  | _ => exact tracks

theorem Moves.quiet (moves : Moves m stage limit head session state entry events) :
    ∀ event ∈ events, event.Quiet session := by
  intro event member
  cases moves <;> simp only [mem_singleton, not_mem_nil] at member <;>
    first | contradiction | (rw [member]; exact rfl)

theorem page_head (sound : m.Sound limit) (filled : m.history.frames ≠ [])
    (kept : m.history.start ≤ cursor) (allowed : m.pageLimit cursor head = some count)
    (member : frame ∈ m.history.readRange cursor count) :
    m.history.start ≤ frame.id ∧ frame.id ≤ head := by
  have latest := sound.history.latest filled
  have ids := sound.history.readRange_ids filled kept count
  have inside := mem_map_of_mem (f := Frame.id) member
  rw [ids, mem_range'_1] at inside
  refine ⟨by omega, ?_⟩
  rw [pageLimit] at allowed
  repeat' split at allowed
  all_goals first
    | contradiction
    | (cases allowed; omega)

/-- Nothing is handed over that is ahead of the committed frame. -/
theorem Moves.gated {committed : Option Nat} (sound : m.Sound limit)
    (filled : m.history.frames ≠ []) (regular : Regular m.sequencer.next limit state)
    (within : limit ≤ head) (reading : ∀ c ∈ committed, head ≤ c)
    (moves : Moves m stage limit head session state entry events)
    (member : Event.handed s message h start ∈ events) :
    Handed.Gated { message, committed, start } := by
  cases moves with
  | notified failure | trimmed failure =>
    cases mem_singleton.mp member
    trivial
  | sending transfer image settings message idle served phase ready configured made =>
    cases mem_singleton.mp member
    subst made
    intro c held
    have frame := regular.image transfer image phase ready
    have := reading c held
    omega
  | paging last count message idle served phase kept allowed read made =>
    cases mem_singleton.mp member
    subst made
    intro frame inside
    obtain ⟨low, high⟩ := page_head sound filled kept allowed inside
    exact ⟨low, fun c held => Nat.le_trans high (reading c held)⟩
  | _ => simp at member

theorem Follows.step {l : Ledger} (sound : m.Sound limit) (filled : m.history.frames ≠ [])
    (near : stage.early → ∀ cursor id, m.history.latest < cursor + m.depth → cursor ≤ id →
      0 < id → id < m.sequencer.next → id ∈ extra)
    (within : limit ≤ head) (reading : ∀ c ∈ l.reading, head ≤ c)
    (step : Step m stage limit head session after events) (follows : m.Follows extra l) :
    after.Follows extra (events.foldl Ledger.note l) := by
  have sequencer : after.sequencer = m.sequencer := step.alike.get Match.sequencer fun _ _ _ _ => rfl
  have sessions : after.sessions = m.sessions := step.alike.get Match.sessions fun _ _ _ _ => rfl
  have spectators : after.spectators = m.spectators :=
    step.alike.get Match.spectators fun _ _ _ _ => rfl
  have attached (other : Nat) : after.Attached other ↔ m.Attached other := by
    rw [Attached, Attached, sessions, spectators]
  rcases step.entry with ⟨unchanged, rfl⟩ | ⟨state, held, moves⟩
  · refine ⟨fun other => ?_, fun other open_ => (attached other).mpr (follows.attached other open_),
      follows.gapless, follows.gated⟩
    have same : after.catchups.get other = m.catchups.get other := by
      by_cases same : other = session
      · rw [same, unchanged]
      · exact step.others other same
    rw [sequencer, same]
    exact follows.owed other
  · have quiet := moves.quiet
    have get (other : Nat) : (events.foldl Ledger.note l).episodes.get other = _ :=
      Ledger.notes_get fun event member => (quiet event member).session
    have regular := sound.states session state held
    have owed := follows.owed session
    rw [held] at owed
    cases open_ : l.episodes.get session with
    | none =>
      rw [open_] at owed
      exact owed.elim
    | some ep =>
      rw [open_] at owed
      refine ⟨fun other => ?_, fun other some => (attached other).mpr ?_, ?_, fun h member => ?_⟩
      · rw [sequencer, get other]
        by_cases same : other = session
        · rw [if_pos same, same, open_]
          exact owed.move sound filled regular near moves
        · rw [if_neg same, step.others other same]
          exact follows.owed other
      · rw [get other] at some
        split at some
        · rename_i same
          rw [same]
          exact follows.attached session (by rw [open_]; rfl)
        · exact follows.attached other some
      · rw [Ledger.notes_returns quiet]
        exact follows.gapless
      · rcases Ledger.notes_handed member with old | ⟨message, head', start, s, now, rfl⟩
        · exact follows.gated h old
        · exact moves.gated sound filled regular within reading now

end

end Match

end Roost.Lockstep
