import RoostCore.Nest.QueueOrder

/-! The workers of the dispatch queue: one returns only from a stopped queue without pending
work, and none sleeps while an item waits that no other worker is up to take. -/
namespace Roost.Nest

namespace DispatchLane
variable {s after : DispatchLane} {lane : Lane}

def waiting (s : DispatchLane) : Nat :=
  s.continuations.length + s.ready.length + s.tryBatches.length

/-- No wake-up is lost, and no continuation waits where no worker looks for one. -/
structure Attended (lane : Lane) (s : DispatchLane) : Prop where
  woken : s.parked = 0 ∨ s.waiting ≤ s.awake
  business : lane = .io → s.continuations = []

/-- What every move but a worker's return does to a lane. -/
structure Tends (lane : Lane) (s after : DispatchLane) : Prop where
  exited : after.exited = s.exited
  attended : s.Attended lane → after.Attended lane

theorem Tends.refl (lane : Lane) (s : DispatchLane) : Tends lane s s := ⟨rfl, id⟩

theorem Tends.trans (first : Tends lane s middle) (second : Tends lane middle after) :
    Tends lane s after :=
  ⟨second.exited.trans first.exited, second.attended ∘ first.attended⟩

/-- The waiting items stay, and more workers may be up. -/
theorem tends_awake (exited : after.exited = s.exited) (parked : after.parked = s.parked)
    (continuations : after.continuations = s.continuations) (waiting : after.waiting = s.waiting)
    (awake : s.awake ≤ after.awake) : Tends lane s after := by
  refine ⟨exited, fun attended => ⟨?_, fun io => continuations.trans (attended.business io)⟩⟩
  rw [waiting, parked]
  exact attended.woken.imp_right fun enough => enough.trans awake

/-- An item more, and a wake-up for it. -/
theorem tends_signal (exited : after.exited = s.exited) (parked : after.parked = s.parked)
    (awake : after.awake = s.awake) (one : after.waiting = s.waiting + 1)
    (business : lane = .io → after.continuations = s.continuations) : Tends lane s after.signal := by
  unfold signal
  split
  case isTrue none =>
    exact ⟨exited, fun attended => ⟨.inl none, fun io => (business io).trans (attended.business io)⟩⟩
  case isFalse some =>
    refine ⟨exited, fun attended => ⟨.inr ?_, fun io => (business io).trans (attended.business io)⟩⟩
    have enough := attended.woken.resolve_left (parked ▸ some)
    change after.waiting ≤ after.awake + 1
    omega

theorem tends_broadcast (lane : Lane) (s : DispatchLane) : Tends lane s s.broadcast :=
  ⟨rfl, fun attended => ⟨.inl rfl, attended.business⟩⟩

theorem take_waiting (taken : s.take lane = some (j, after)) :
    after.waiting + 1 = s.waiting ∧ after.exited = s.exited ∧ after.parked = s.parked ∧
      after.awake = s.awake ∧ (lane = .io → after.continuations = s.continuations) := by
  rcases take_cases taken with ⟨rest, first, business, rfl⟩ | ⟨rest, first, rfl⟩ | ⟨rest, first, rfl⟩
  · refine ⟨?_, rfl, rfl, rfl, fun io => absurd io business⟩
    simp only [waiting, first, List.length_cons]
    omega
  all_goals
    refine ⟨?_, rfl, rfl, rfl, fun _ => rfl⟩
    simp only [waiting, startExternal, first, List.length_cons]
    omega

theorem takeExternal_none (none : s.takeExternal lane = none) : s.ready = [] ∧ s.tryBatches = [] := by
  unfold takeExternal at none
  split at none
  · exact ⟨‹_›, ‹_›⟩
  · cases none
  · cases none
  · split at none <;> cases none

/-- A worker that is up takes an item whenever one waits. -/
theorem Attended.waiting_eq_zero (attended : s.Attended lane) (none : s.take lane = none) :
    s.waiting = 0 := by
  rw [take] at none
  split at none
  case h_1 c rest continuations =>
    split at none
    · cases none
    case isFalse refused =>
      have business : lane ≠ .io := fun io => by simp [attended.business io] at continuations
      exact absurd ⟨business, .inr (takeExternal_none none)⟩ refused
  case h_2 continuations =>
    obtain ⟨ready, batches⟩ := takeExternal_none none
    simp [waiting, continuations, ready, batches]

end DispatchLane

namespace DispatchQueue
open DispatchLane (tends_awake tends_signal tends_broadcast)
variable {q after : DispatchQueue} {lane : Lane} {b : Nat}

def Tends (q after : DispatchQueue) : Prop := ∀ lane, (q.lanes lane).Tends lane (after.lanes lane)

theorem Tends.refl (q : DispatchQueue) : q.Tends q := fun lane => .refl lane _

theorem Tends.trans {middle : DispatchQueue} (first : q.Tends middle) (second : middle.Tends after) :
    q.Tends after :=
  fun lane => (first lane).trans (second lane)

section
variable (q : DispatchQueue)

theorem setLane_tends (moves : (q.lanes lane).Tends lane s) : q.Tends (q.setLane lane s) := by
  intro other
  by_cases here : other = lane
  · subst here
    simpa [setLane] using moves
  · simpa [setLane, here] using DispatchLane.Tends.refl other (q.lanes other)

theorem enqueueReady_tends (lane : Lane) (j : Ref) : q.Tends (q.enqueueReady lane j) := by
  refine setLane_tends q (tends_signal ?_ ?_ ?_ ?_ fun _ => ?_)
  case refine_4 =>
    cases j <;> simp only [DispatchLane.waiting, List.length_append, List.length_singleton] <;> omega
  all_goals cases j <;> rfl

theorem releaseIDs_tends (j : Ref) : q.Tends (q.releaseIDsLocked j) := by
  have all : ∀ (freed : List Ref) (q : DispatchQueue),
      q.Tends (freed.foldl (fun q next => q.enqueueReady (q.jobs next).lane next) q) := by
    intro freed
    induction freed with
    | nil => exact .refl
    | cons next rest ih => exact fun q => (enqueueReady_tends q _ next).trans (ih _)
  exact all _ { q with turns := (q.turns.release j).1 }

/-- The counts of a lane change and an item becomes ready in it. -/
theorem counted_tends (lane : Lane) (j : Ref) (counts : (q.lanes lane).Tends lane s) :
    q.Tends ((q.setLane lane s).enqueueReady lane j) :=
  (setLane_tends q counts).trans (enqueueReady_tends _ lane j)

theorem finishJob_tends (lane : Lane) (j : Ref) : q.Tends (q.finishJobLocked lane j) := by
  have counted : q.Tends (q.setLane lane ((q.lanes lane).giveBack (q.jobs j).continuation)) := by
    refine setLane_tends q ?_
    unfold DispatchLane.giveBack
    split <;> exact tends_awake rfl rfl rfl rfl le_rfl
  have released := counted.trans (releaseIDs_tends _ j)
  simp only [finishJobLocked]
  split
  · exact fun lane => (released lane).trans (tends_broadcast lane _)
  · exact released

end

theorem admitLocked_tends (ok : q.admitLocked lane ids = .ok after) : q.Tends after := by
  rw [admitLocked_ok ok]
  simp only [registerLocked]
  split
  · exact counted_tends q lane (.job q.nextJob) (tends_awake rfl rfl rfl rfl le_rfl)
  · exact setLane_tends q (tends_awake rfl rfl rfl rfl le_rfl)

theorem pushContinuation_tends (q : DispatchQueue) (business : lane ≠ .io) :
    q.Tends (q.pushContinuationLocked lane) := by
  refine setLane_tends q (tends_signal rfl rfl rfl ?_ fun io => absurd io business)
  simp only [DispatchLane.waiting, List.length_append, List.length_singleton]
  omega

theorem putDown_tends (q : DispatchQueue) (lane : Lane) (j : Ref) (acts : Bool) :
    q.Tends (q.putDown lane j acts) := by
  refine setLane_tends q ?_
  cases acts
  · exact tends_awake rfl rfl rfl rfl (Nat.le_succ _)
  · exact tends_awake rfl rfl rfl rfl le_rfl

theorem rerouteToIO_tends (q : DispatchQueue) (j : Ref) : q.Tends (q.rerouteToIo j) := by
  refine (setLane_tends q ?_).trans (counted_tends _ .io j ?_)
  · exact tends_awake rfl rfl rfl rfl le_rfl
  · exact tends_awake rfl rfl rfl rfl le_rfl

theorem convert_tends {id : Int} (ok : q.convertTryBatchTargetLocked b id = .ok after) :
    q.Tends after := by
  rw [convertTryBatchTargetLocked] at ok
  split at ok
  · cases ok
  split at ok
  · cases ok
  · exact admitLocked_tends ok

theorem prepareTargets_tends (targets : List Int) (q : DispatchQueue) (n : Nat) :
    q.Tends (q.prepareTargets b n targets) := by
  induction targets generalizing q n with
  | nil => exact .refl q
  | cons id rest ih =>
    rw [prepareTargets]
    split
    · exact ih (q.setPlan b n _) (n + 1)
    split
    · exact ih ((q.setPlan b n {}).claimLocked b n id) (n + 1)
    split
    · exact .refl q
    split
    case h_1 after ok =>
      have kept : q.Tends after := convert_tends ok
      exact kept.trans (ih (after.setPlan b n _) (n + 1))
    case h_2 => exact ih (q.setPlan b n _) (n + 1)

theorem releaseClaims_tends (q : DispatchQueue) (b : Nat) :
    q.Tends (q.releaseTryBatchClaimsLocked b) := by
  refine List.foldlRecOn (motive := q.Tends) _ _ (.refl q) fun after same i _ => ?_
  rw [releaseClaimLocked]
  split
  · exact same.trans (releaseIDs_tends after (.claim b i))
  · exact same

theorem finishTryBatchGroup_tends (q : DispatchQueue) (b start : Nat) :
    q.Tends (q.finishTryBatchGroupLocked b start) := by
  refine Tends.trans ?_ (releaseClaims_tends _ b)
  refine List.foldlRecOn (motive := q.Tends) _ _ (.refl q) fun after same i _ => ?_
  rw [convertBusyLocked]
  split
  · split
    · split
      case h_1 ok => exact same.trans (convert_tends ok)
      case h_2 => exact same
    · exact same
  · exact same

theorem groupDone_tends (outcome : Nat → TargetOutcome) (slice : Bool) :
    q.Tends (q.groupDone b outcome slice) := by
  have done : q.Tends _ := finishTryBatchGroup_tends (q.setBatch b (executeGroup (q.batches b) outcome)) b (q.batches b).next
  simp only [groupDone]
  split
  · exact done
  split
  · exact done
  · exact done.trans (prepareTargets_tends _ _ 0)

theorem leaveTryBatch_tends (lane : Lane) (yield : Bool) :
    q.Tends (q.leaveTryBatchLocked lane b yield) := by
  have left := (releaseClaims_tends q b).trans (putDown_tends _ lane (.batch b) false)
  simp only [leaveTryBatchLocked]
  split
  · exact left.trans (counted_tends _ lane (.batch b) (tends_awake rfl rfl rfl rfl le_rfl))
  · exact left.trans (finishJob_tends _ lane (.batch b))

/-- A worker takes an item and is no longer up for another one, or finds none. -/
theorem work_tends (attended : (q.lanes lane).Attended lane) : q.Tends (q.work lane) ∨
    (q.stopping = true ∧ q.pending = 0) ∧ ∀ other,
      (q.lanes other).Attended other → ((q.work lane).lanes other).Attended other := by
  simp only [work]
  split
  case isTrue => exact .inl (.refl q)
  case isFalse up =>
    split
    case h_1 j s taken =>
      obtain ⟨fewer, exited, parked, awake, continuations⟩ := DispatchLane.take_waiting taken
      have takes : (q.lanes lane).Tends lane { s with awake := s.awake - 1, executing := j :: s.executing } := by
        refine ⟨exited, fun attended => ⟨?_, fun io => (continuations io).trans (attended.business io)⟩⟩
        refine attended.woken.imp parked.trans fun enough => ?_
        change s.waiting ≤ s.awake - 1
        omega
      have taking : q.Tends (q.setLane lane _) := setLane_tends q takes
      split
      · refine .inl (Tends.trans ?_ (prepareTargets_tends _ _ 0))
        exact taking
      · exact .inl taking
    case h_2 none =>
      have empty := attended.waiting_eq_zero none
      split
      case isTrue drained =>
        refine .inr ⟨drained, fun other kept => ?_⟩
        by_cases here : other = lane
        · subst here
          simp only [setLane, Function.update_self]
          exact ⟨.inr (by change (q.lanes other).waiting ≤ _; omega), kept.business⟩
        · simpa [setLane, here] using kept
      case isFalse =>
        refine .inl (setLane_tends q ⟨rfl, fun attended => ⟨.inr ?_, attended.business⟩⟩)
        change (q.lanes lane).waiting ≤ _
        omega

theorem accepted_tends (ok : ∀ after, result = .ok after → q.Tends after) :
    q.Tends (q.accepted result) := by
  cases result with
  | error reason => exact .refl q
  | ok after => exact ok after rfl

theorem businessLane_ne_io (long : Int → Bool) (msg : DispatchMsg) : businessLane long msg ≠ .io := by
  simp only [businessLane]
  split <;> decide

theorem step_tends (long : Int → Bool) (input : Input) (other : ∀ lane, input ≠ .work lane) :
    q.Tends (q.step long input) := by
  cases input with
  | start =>
    rw [step, start]
    split
    · exact .refl q
    · exact fun lane => tends_awake rfl rfl rfl rfl (Nat.le_add_right _ _)
  | admitMsg msg prepareIo =>
    refine accepted_tends fun after ok => ?_
    rw [admitMsg] at ok
    split at ok
    · cases ok
    · exact admitLocked_tends ok
  | admitTryBatch b isLong items =>
    rw [step]
    split
    · refine accepted_tends fun after ok => admitTryBatch_ok ok ▸ counted_tends q _ (.batch b) ?_
      exact tends_awake rfl rfl rfl rfl le_rfl
    · exact .refl q
  | continueBusiness parent msg =>
    rw [step]
    split
    · exact pushContinuation_tends q (businessLane_ne_io long msg)
    · exact .refl q
  | tryContinueBusiness msg =>
    rw [step]
    split
    · exact .refl q
    · exact pushContinuation_tends q (businessLane_ne_io long msg)
  | reserveAwait =>
    refine accepted_tends fun after ok => ?_
    simp only [reserveAwait] at ok
    split at ok
    · cases ok
    split at ok
    · cases ok
    · cases ok
      exact .refl q
  | cancelAwait plan =>
    simp only [step, cancelAwait]
    split
    · split
      · exact fun lane => tends_broadcast lane _
      · exact .refl q
    · exact .refl q
  | startAwait plan =>
    rw [step]
    split
    · exact counted_tends q .io (.job q.nextJob) (tends_awake rfl rfl rfl rfl le_rfl)
    · exact .refl q
  | work lane => exact absurd rfl (other lane)
  | ran lane r reroute acts =>
    rw [step]
    split
    · rw [ran]
      split
      · exact (putDown_tends q lane r false).trans (rerouteToIO_tends _ r)
      · exact (putDown_tends q lane r acts).trans (finishJob_tends _ lane r)
    · exact .refl q
  | acted lane =>
    simp only [step]
    split
    · exact .refl q
    · exact setLane_tends q (tends_awake rfl rfl rfl rfl (Nat.le_succ _))
  | groupDone lane b outcome slice =>
    rw [step]
    split
    · exact groupDone_tends outcome slice
    · exact .refl q
  | leave lane b =>
    rw [step]
    split
    · split
      · exact leaveTryBatch_tends lane false
      · exact leaveTryBatch_tends lane _
      · exact .refl q
    · exact .refl q
  | fence => exact .refl q
  | stop =>
    rw [step, stop]
    split
    · exact .refl q
    · exact fun lane => tends_broadcast lane _

def Attended (q : DispatchQueue) : Prop := ∀ lane, (q.lanes lane).Attended lane

/-- A worker returns only from a stopped queue in which nothing is pending. -/
theorem Attended.step (attended : q.Attended) (long : Int → Bool) (input : Input) :
    (q.step long input).Attended ∧ ∀ lane,
      ((q.step long input).lanes lane).exited ≠ (q.lanes lane).exited →
        q.stopping = true ∧ q.pending = 0 := by
  by_cases taking : ∃ other, input = .work other
  · obtain ⟨other, rfl⟩ := taking
    rcases work_tends (attended other) with moves | ⟨drained, keeps⟩
    · exact ⟨fun lane => (moves lane).attended (attended lane),
        fun lane exits => absurd (moves lane).exited exits⟩
    · exact ⟨fun lane => keeps lane (attended lane), fun _ _ => drained⟩
  · have moves := step_tends (q := q) long input fun other same => taking ⟨other, same⟩
    exact ⟨fun lane => (moves lane).attended (attended lane),
      fun lane exits => absurd (moves lane).exited exits⟩

theorem run_attended (long : Int → Bool) (config : Lane → WorkerPoolConfig) (inputs : List Input) :
    (run (DispatchQueue.step long) (init config) inputs).Attended :=
  invariant (P := Attended) (fun _ input attended => (Attended.step attended long input).1)
    (fun _ => ⟨.inl rfl, fun _ => rfl⟩) inputs

end DispatchQueue
end Roost.Nest
