import RoostCore.Lockstep.Match

/-! What a tick can do to the recovery of one session. The loops of `Tick` treat the
sessions one after the other; each step is one of the moves below, and every invariant of
a match is proved by their cases. -/
namespace Roost.Lockstep
open Go Option

namespace Match

/-- The two differ at most in the recoveries, the fetch and the transfer counter. -/
def Alike (after m : Match) : Prop :=
  { after with catchups := m.catchups, fetch := m.fetch, lastTransfer := m.lastTransfer } = m

theorem Alike.trans {a b c : Match} (first : b.Alike a) (second : c.Alike b) : c.Alike a := by
  rw [← second] at first
  exact first

/-- Whatever reads none of the three is the same of both. -/
theorem Alike.get (alike : after.Alike m) (f : Match → α) (blind : ∀ m catchups fetch counter,
      f { m with catchups, fetch, lastTransfer := counter } = f m) :
    f after = f m := by
  have same := congrArg f alike
  rwa [blind] at same

/-- An image the fetch lets through. -/
structure Offers (m : Match) (limit : Nat) (image : SnapshotImage) : Prop where
  filled : image.snapshot.data ≠ []
  bounded : image.snapshot.data.length ≤ (m.snapshots.map SnapshotSettings.maxBytes).getD 0
  frame : image.snapshot.frame ≤ limit

/-- The chunks the next batch of a transfer has. -/
def batch (settings : SnapshotSettings) (image : SnapshotImage) (offset : Nat) :
    List (Nat × Nat) :=
  batchBounds image.snapshot.data.length settings.chunkBytes settings.budget
    (image.snapshot.data.length - offset) offset 0

/-- Where in a tick a move is made: before the broadcast, and in a tick that does not use
up the transfer numbers. -/
structure Stage where
  early : Prop
  numbered : Prop

/-- One move of a session in recovery, where `limit` bounds the frames of snapshots and
`head` the frames of pages. Only before the broadcast does a session go live because the
packet covers the rest. -/
inductive Moves (m : Match) (stage : Stage) (limit head session : Nat) (state : CatchupState) :
    Option CatchupState → List Event → Prop where
  | ended : Moves m stage limit head session state none [.ended session]
  | retried (failures : Nat) (served : state.unservable = none) :
      Moves m stage limit head session state (some { state with inflight := none, failures })
        []
  | paged (send : CatchupSend) (frames : List Frame) (under : state.inflight = some send)
      (message : send.message = .page frames) (served : state.unservable = none) :
      Moves m stage limit head session state
        (some { state with inflight := none, failures := 0, next := paged state send })
        [.page session frames]
  | pagedLive (send : CatchupSend) (frames : List Frame) (under : state.inflight = some send)
      (message : send.message = .page frames) (served : state.unservable = none)
      (ahead : m.history.latest < Match.paged state send) :
      Moves m stage limit head session state none [.page session frames]
  | chunked (send : CatchupSend) (id : UInt64) (image : SnapshotImage) (bounds : List (Nat × Nat))
      (transfer : SnapshotTransfer) (result : SendResult) (failures : Nat)
      (under : state.inflight = some send) (message : send.message = .chunks id image bounds)
      (served : state.unservable = none) (phase : state.snapshot = some transfer)
      (unfinished : result ≠ .ok ∨
        transfer.offset + writtenBytes bounds result < image.snapshot.data.length) :
      Moves m stage limit head session state
        (some { state with
                inflight := none, failures
                snapshot := some { transfer with
                                   offset := transfer.offset + writtenBytes bounds result } })
        []
  | restored (send : CatchupSend) (id : UInt64) (image : SnapshotImage)
      (bounds : List (Nat × Nat)) (transfer : SnapshotTransfer) (failures : Nat)
      (under : state.inflight = some send) (message : send.message = .chunks id image bounds)
      (served : state.unservable = none) (phase : state.snapshot = some transfer)
      (behind : image.snapshot.frame + 1 ≤ m.history.latest) :
      Moves m stage limit head session state
        (some { state with
                inflight := none, failures, snapshot := none, recovered := true
                next := image.snapshot.frame + 1 })
        [.snapshot session image.snapshot.frame]
  | restoredLive (send : CatchupSend) (id : UInt64) (image : SnapshotImage)
      (bounds : List (Nat × Nat)) (transfer : SnapshotTransfer)
      (under : state.inflight = some send) (message : send.message = .chunks id image bounds)
      (served : state.unservable = none) (phase : state.snapshot = some transfer)
      (ahead : m.history.latest < image.snapshot.frame + 1) :
      Moves m stage limit head session state none [.snapshot session image.snapshot.frame]
  | live (before : stage.early) (idle : state.inflight = none) (served : state.unservable = none)
      (paging : state.snapshot = none) (near : m.history.latest < state.next + m.depth) :
      Moves m stage limit head session state none []
  | given (transfer : SnapshotTransfer) (image : SnapshotImage)
      (phase : state.snapshot = some transfer) (waiting : transfer.image = none)
      (offers : m.Offers limit image) (counted : stage.numbered → m.lastTransfer + 1 ≠ 0) :
      Moves m stage limit head session state
        (some { state with
                failures := 0
                snapshot := some { transfer with
                                   image := some image, transfer := m.lastTransfer + 1
                                   offset := 0 } })
        []
  | fellBack (transfer : SnapshotTransfer) (phase : state.snapshot = some transfer)
      (waiting : transfer.image = none) (fallback : transfer.fallback = true) :
      Moves m stage limit head session state (some { state with snapshot := none }) []
  | attempted (failures : Nat) : Moves m stage limit head session state
      (some { state with failures }) []
  | refused (failures : Nat) (reason : RecoveryFailureReason) (served : state.unservable = none)
      (other : reason ≠ .historyTrimmed) :
      Moves m stage limit head session state
        (some (m.failRecovery { state with failures } reason)) []
  | notified (failure : CatchupUnservableError) (idle : state.inflight = none)
      (unserved : state.unservable = some failure) :
      Moves m stage limit head session state
        (some { state with
                inflight := some { start := state.next, stop := state.next
                                   message := .notice failure } })
        [.handed session (.notice failure) head m.history.start]
  | trimmed (failure : CatchupUnservableError) (idle : state.inflight = none)
      (served : state.unservable = none) (paging : state.snapshot = none)
      (gone : state.next < m.history.start)
      (made : failure = { reason := .historyTrimmed, first := state.next
                          start := m.history.start }) :
      Moves m stage limit head session state
        (some { state with
                unservable := some failure
                inflight := some { start := state.next, stop := state.next
                                   message := .notice failure } })
        [.handed session (.notice failure) head m.history.start]
  | sending (transfer : SnapshotTransfer) (image : SnapshotImage) (settings : SnapshotSettings)
      (message : Message) (idle : state.inflight = none) (served : state.unservable = none)
      (phase : state.snapshot = some transfer) (ready : transfer.image = some image)
      (configured : m.snapshots = some settings)
      (made : message = .chunks transfer.transfer image (batch settings image transfer.offset)) :
      Moves m stage limit head session state
        (some { state with inflight := some { start := 0, stop := 0, message } })
        [.handed session message head m.history.start]
  | paging (last : Frame) (count : Nat) (message : Message) (idle : state.inflight = none)
      (served : state.unservable = none) (phase : state.snapshot = none)
      (kept : m.history.start ≤ state.next) (allowed : m.pageLimit state.next head = some count)
      (read : (m.history.readRange state.next count).getLast? = some last)
      (made : message = .page (m.history.readRange state.next count)) :
      Moves m stage limit head session state
        (some { state with
                inflight := some { start := state.next, stop := last.id + 1, message } })
        [.handed session message head m.history.start]
  | begun (served : state.unservable = none) : Moves m stage limit head session state
      (some (m.beginSnapshot state false)) []
  | caughtUp (count : Nat) (idle : state.inflight = none) (served : state.unservable = none)
      (phase : state.snapshot = none) (kept : m.history.start ≤ state.next)
      (allowed : m.pageLimit state.next head = some count)
      (read : m.history.readRange state.next count = []) :
      Moves m stage limit head session state none []

/-- A step of a loop: at most one session moves. -/
structure Step (m : Match) (stage : Stage) (limit head session : Nat) (after : Match) (events : List Event) :
    Prop where
  alike : after.Alike m
  fetch : after.fetch = m.fetch
  counter : after.lastTransfer = m.lastTransfer ∨
    ¬ stage.early ∧ after.lastTransfer = m.lastTransfer + 1
  size : after.catchups.pairs.length ≤ m.catchups.pairs.length
  others : ∀ other, other ≠ session → after.catchups.get other = m.catchups.get other
  entry : (after.catchups.get session = m.catchups.get session ∧ events = []) ∨
    ∃ state, m.catchups.get session = some state ∧
      Moves m stage limit head session state (after.catchups.get session) events

section steps
variable {m : Match} {stage : Stage} {limit head session : Nat} {state : CatchupState}
  {events : List Event}

theorem Step.stay : Step m stage limit head session m [] :=
  ⟨rfl, rfl, .inl rfl, Nat.le_refl _, fun _ _ => rfl, .inl ⟨rfl, rfl⟩⟩

section
variable (held : m.catchups.get session = some state)
include held

theorem Step.set (moves : Moves m stage limit head session state (some state') events) :
    Step m stage limit head session (m.setCatchup session state') events := by
  refine ⟨rfl, rfl, .inl rfl, Nat.le_of_eq (Table.length_set_held held),
    fun other distinct => Table.get_set_ne _ _ distinct, .inr ⟨state, held, ?_⟩⟩
  rw [setCatchup, Table.get_set_self]
  exact moves

theorem Step.remove (moves : Moves m stage limit head session state none events) :
    Step m stage limit head session (m.endCatchup session) events := by
  have shorter : (m.catchups.remove session).pairs.length ≤ m.catchups.pairs.length := by
    rw [Table.length_remove held]
    exact Nat.le_succ _
  refine ⟨rfl, rfl, .inl rfl, shorter, fun other distinct => Table.get_remove_ne _ distinct,
    .inr ⟨state, held, ?_⟩⟩
  rw [endCatchup, Table.get_remove_self]
  exact moves

theorem settlePage_step (under : state.inflight = some send) (served : state.unservable = none)
    (message : send.message = .page frames) : Step m stage limit head session
      (m.settlePage session { state with inflight := none } send frames failed).1
      (m.settlePage session { state with inflight := none } send frames failed).2.1 := by
  rw [settlePage]
  cases failed with
  | true =>
    simp only [if_true]
    split
    · exact .remove held .ended
    · exact .set held (.retried _ served)
  | false =>
    simp only [Bool.false_eq_true, if_false]
    split
    · rename_i ahead
      exact .remove held (.pagedLive send frames under message served ahead)
    · exact .set held (.paged send frames under message served)

theorem settleChunks_step {id : UInt64}
    (under : state.inflight = some send) (served : state.unservable = none)
    (message : send.message = .chunks id image bounds) (phase : state.snapshot = some transfer) :
    let settled := m.settleChunks session { state with inflight := none } transfer image
      (writtenBytes bounds result) (decide (result ≠ .ok))
    Step m stage limit head session settled.1 settled.2.1 := by
  rw [settleChunks]
  dsimp only
  generalize (if 0 < writtenBytes bounds result then 0 else state.failures) = failures
  by_cases failed : result ≠ .ok
  · rw [if_pos (by simpa using failed)]
    split
    · exact .remove held .ended
    · exact .set held (.chunked send id image bounds transfer result _ under message served phase
        (.inl failed))
  · rw [if_neg (by simpa using failed)]
    split
    · rename_i unfinished
      exact .set held (.chunked send id image bounds transfer result _ under message served phase
        (.inr unfinished))
    · split
      · rename_i ahead
        exact .remove held (.restoredLive send id image bounds transfer under message served phase
          ahead)
      · rename_i behind
        exact .set held (.restored send id image bounds transfer _ under message served phase
          (Nat.not_lt.mp behind))

end

/-- What is known of a send that is under way. -/
def Shaped (state : CatchupState) : Prop :=
  ∀ send, state.inflight = some send → state.unservable = none →
    (∃ frames, send.message = .page frames ∧ state.snapshot = none) ∨
      ∃ id image bounds transfer, send.message = .chunks id image bounds ∧
        state.snapshot = some transfer ∧ transfer.image = some image

theorem settleCatchup_step (result : SendResult) (held : m.catchups.get session = some state)
    (under : state.inflight = some send) (shaped : Shaped state) :
    Step m stage limit head session (m.settleCatchup session state send result).1
      (m.settleCatchup session state send result).2.1 := by
  rw [settleCatchup]
  split
  · exact .remove held .ended
  rename_i serving
  have served : state.unservable = none := not_isSome_iff_eq_none.mp serving
  obtain ⟨frames, message, -⟩ | ⟨id, image, bounds, transfer, message, phase, -⟩ :=
    shaped send under served
  · rw [message]
    exact settlePage_step held under served message
  · rw [message, phase]
    exact settleChunks_step held under served message phase

theorem settleCatchup_served
    (held : (m.settleCatchup session state send result).1.catchups.get session = some next) :
    next.unservable = none := by
  have ended : (m.endCatchup session).catchups.get session ≠ some next := by
    rw [endCatchup, Table.get_remove_self]
    simp
  rw [settleCatchup] at held
  split at held
  · exact absurd held ended
  rename_i serving
  have served : state.unservable = none := not_isSome_iff_eq_none.mp serving
  have set (kept : CatchupState)
      (found : (m.setCatchup session kept).catchups.get session = some next)
      (same : kept.unservable = state.unservable) : next.unservable = none := by
    rw [setCatchup, Table.get_set_self] at found
    cases found
    rw [same, served]
  split at held
  all_goals
    first
      | rw [settleChunks] at held
      | rw [settlePage] at held
    dsimp only at held
    repeat' split at held
    all_goals first
      | exact absurd held ended
      | exact set _ held rfl

theorem goLive_step (before : stage.early) (served : ∀ state, m.catchups.get session = some state →
      state.unservable = none) :
    Step m stage limit head session (m.goLive session) [] := by
  rw [goLive]
  split
  · exact .stay
  rename_i state held
  split
  · rename_i near
    have below := Nat.mod_le (state.next + m.depth) (2 ^ 32)
    exact .remove held (.live before (isNone_iff_eq_none.mp near.1) (served state held)
      (isNone_iff_eq_none.mp near.2.1) (by omega))
  · exact .stay

theorem failed_step (held : m.catchups.get session = some state)
    (served : state.unservable = none) :
    Step m stage limit head session (m.snapshotAttemptFailed session state) [] := by
  rw [snapshotAttemptFailed]
  split
  · exact .set held (.refused _ _ served (by decide))
  · exact .set held (.attempted _)

theorem applyOne_step (offers : ∀ image, result = .ok image → m.Offers limit image)
    (waiting : ∀ state, m.catchups.get session = some state → waits state = true)
    (served : ∀ state, m.catchups.get session = some state → state.unservable = none)
    (late : ¬ stage.early) (counted : stage.numbered → m.lastTransfer + 1 ≠ 0) :
    Step m stage limit head session (m.applyOne result session) [] := by
  rw [applyOne]
  split
  · exact .stay
  rename_i state held
  have open_ := served state held
  split
  · exact .stay
  rename_i transfer phase
  have empty : transfer.image = none := by
    have waits := waiting state held
    rw [Match.waits, phase] at waits
    exact isNone_iff_eq_none.mp waits
  split
  · rename_i image
    split
    · exact failed_step held open_
    refine ⟨rfl, rfl, .inr ⟨late, rfl⟩, Nat.le_of_eq (Table.length_set_held held),
      fun other distinct => Table.get_set_ne _ _ distinct, .inr ⟨state, held, ?_⟩⟩
    rw [setCatchup, Table.get_set_self]
    exact .given transfer image phase empty (offers image rfl) counted
  · exact .set held (.refused state.failures _ open_ (by decide))
  · split
    · rename_i back
      exact .set held (.fellBack transfer phase empty back.1)
    · exact failed_step held open_

theorem pumpPage_step (held : m.catchups.get session = some state) (idle : state.inflight = none)
    (served : state.unservable = none) (phase : state.snapshot = none)
    (kept : m.history.start ≤ state.next) :
    Step m stage limit head session (m.pumpPage session state head).1
      (m.pumpPage session state head).2 := by
  rw [pumpPage]
  split
  · exact .stay
  rename_i count allowed
  split
  · rename_i read
    exact .remove held (.caughtUp count idle served phase kept allowed
      (List.getLast?_eq_none_iff.mp read))
  · rename_i last read
    exact .set held (.paging last count _ idle served phase kept allowed read rfl)

theorem pumpOne_step : Step m stage limit head session (m.pumpOne head session).1
    (m.pumpOne head session).2 := by
  rw [pumpOne]
  split
  · exact .stay
  rename_i state held
  split
  · exact .stay
  rename_i free
  have idle : state.inflight = none := not_isSome_iff_eq_none.mp free
  split
  · rename_i failure unserved
    exact .set held (.notified failure idle unserved)
  · rename_i transfer served phase
    split
    · rename_i image settings ready configured
      exact .set held (.sending transfer image settings _ idle served phase ready configured rfl)
    · exact .stay
  · rename_i served phase
    split
    · rename_i gone
      split
      · exact .set held (.begun served)
      · exact .set held (.trimmed _ idle served phase gone rfl)
    · rename_i kept
      exact pumpPage_step held idle served phase (Nat.not_lt.mp kept)

end steps

end Match

end Roost.Lockstep
