import RoostCore.Nest.QueueRuns
import RoostCore.Nest.QueueWorkers

/-! What the dispatch queue guarantees over every run: jobs that share a target run one at a
time in the order of their admission, batches exclude them while they hold a claim, and
pending work never comes to a standstill. -/
namespace Roost.Nest
open QueueEvent List

namespace DispatchQueue
variable {q : DispatchQueue} {line : List Ref}

def Edge (q : DispatchQueue) (p r : Ref) : Prop := r ∈ q.turns.successors p

/-- Claims wait for nothing, and jobs for jobs with a smaller number. -/
def height : Ref → Nat
  | .job n => n + 1
  | _ => 0

theorem Ordered.edge_height (ordered : q.Ordered line) (edge : q.Edge p r) :
    height p < height r := by
  obtain ⟨n, -, rfl, order⟩ := ordered.lined.forward p r edge
  cases p with
  | job m => exact Nat.succ_lt_succ (order m rfl)
  | batch b | claim b i => exact Nat.succ_pos n

theorem Ordered.acyclic (ordered : q.Ordered line) (r : Ref) : ¬Relation.TransGen q.Edge r r := by
  have climbs : ∀ {p r}, Relation.TransGen q.Edge p r → height p < height r := by
    intro p r path
    induction path with
    | single edge => exact ordered.edge_height edge
    | tail _ edge ih => exact ih.trans (ordered.edge_height edge)
  exact fun cycle => Nat.lt_irrefl _ (climbs cycle)

/-- Something can go on in the lane: an item is ready, waits to continue or is running. -/
def Busy (q : DispatchQueue) (lane : Lane) : Prop :=
  (q.lanes lane).ready ≠ [] ∨ (q.lanes lane).tryBatches ≠ [] ∨ (q.lanes lane).continuations ≠ [] ∨
    (q.lanes lane).executing ≠ []

theorem places_nil (idle : ∀ lane, ¬q.Busy lane) : q.places = [] := by
  have items : ∀ lane, (q.lanes lane).items = [] := by
    intro lane
    have none := idle lane
    simp only [Busy, not_or, not_not] at none
    obtain ⟨ready, batches, continuations, executing⟩ := none
    simp [DispatchLane.items, ready, batches, continuations, executing]
  simp [places, items]

/-- The first of the line is in a lane, or is the claim of a batch that is. -/
theorem Ordered.moving (ordered : q.Ordered line) (pending : 0 < q.pending) :
    (∃ lane, q.Busy lane) ∨ q.plans ≠ [] := by
  by_contra stuck
  obtain ⟨idle, noPlans⟩ := not_or.mp stuck
  have noPlaces := places_nil (not_exists.mp idle)
  have placed := ordered.placed
  have waits : q.unfinished line = q.turns.waiting line := by rw [unfinished, noPlaces, nil_append]
  have inLine : ∀ {r}, r ∈ q.unfinished line → r ∈ line ∧ 0 < q.turns.predecessors r := by
    intro r member
    rw [waits, Turns.waiting, mem_filter] at member
    exact ⟨member.1, by simpa using member.2⟩
  cases whole : line with
  | nil =>
    have count := placed.pending
    rw [waits, whole, not_not.mp noPlans] at count
    simp [Turns.waiting] at count
    omega
  | cons first rest =>
    have member : first ∈ line := whole ▸ mem_cons_self
    have clear : q.turns.predecessors first = 0 := (whole ▸ ordered.lined.linked :
      q.turns.Linked (first :: rest)).first
    rcases ordered.lined.known first member with ⟨n, -, rfl⟩ | ⟨b, i, rfl⟩
    · have := (inLine (placed.covered n member)).2
      omega
    · have holder := inLine (placed.holders b i ((ordered.lined.claims b i).mp member))
      rcases ordered.lined.known _ holder.1 with ⟨n, -, same⟩ | ⟨b', i', same⟩
      · cases same
      · cases same

/-- The counter is the number of accepted jobs that have not ended, with the reservations. -/
theorem Ordered.counted (ordered : q.Ordered line) :
    q.pending = ((range q.nextJob).countP fun n => .ended n ∉ q.history) + q.plans.length := by
  have numbers : ((q.unfinished line).map q.serial).Perm
      ((range q.nextJob).filter fun n => .ended n ∉ q.history) := by
    refine (perm_ext_iff_of_nodup ordered.placed.distinct (nodup_range.filter _)).mpr fun n => ?_
    rw [mem_filter, mem_range, decide_eq_true_eq, ordered.recorded.ended n]
    constructor
    · intro member
      obtain ⟨r, inside, rfl⟩ := mem_map.mp member
      exact ⟨ordered.placed.below r inside, fun gone => gone.2 member⟩
    · rintro ⟨below, alive⟩
      by_contra outside
      exact alive ⟨below, outside⟩
  rw [ordered.placed.pending, countP_eq_length_filter, ← numbers.length_eq, length_map]

theorem Ordered.ended_of_drained (ordered : q.Ordered line) (drained : q.pending = 0)
    (admitted : .admitted n ids ∈ q.history) : q.history.count (.ended n) = 1 := by
  have below := ((ordered.recorded.admitted n ids).mp admitted).1
  have count := ordered.counted
  have ended : .ended n ∈ q.history := by
    by_contra alive
    have positive : 0 < (range q.nextJob).countP fun n => .ended n ∉ q.history :=
      countP_pos_iff.mpr ⟨n, mem_range.mpr below, by simpa using alive⟩
    omega
  have once := ordered.recorded.orderly.ended_once n
  have some : 0 < q.history.count (.ended n) := count_pos_iff.mpr ended
  omega

theorem Ordered.running_unclaimed (ordered : q.Ordered line)
    (running : .job n ∈ (q.lanes lane).executing) (admitted : .admitted n ids ∈ q.history)
    {id : Int} (own : id ∈ ids) (b : Nat) : ¬Held q.history b id := by
  intro held
  obtain ⟨-, found, admitted', clear⟩ := ordered.permitted (mem_places running)
  obtain ⟨-, rfl⟩ := (ordered.recorded.admitted n ids).mp admitted
  obtain ⟨-, rfl⟩ := (ordered.recorded.admitted n found).mp admitted'
  exact (clear id own).2 b held

/-- Any interleaving of critical sections keeps jobs with a common target in the order of
their admission, apart from each other and from claims, ends each job once, and never lets
pending work come to a standstill: a worker that is up takes an item of its lane whenever
one waits there, and one is up unless none sleeps. -/
theorem dispatch_queue_serial (long : Int → Bool) (config : Lane → WorkerPoolConfig)
    (inputs : List Input) :
    let q := run (step long) (init config) inputs
    Orderly q.history ∧
      (∀ lane n ids id b, .job n ∈ (q.lanes lane).executing → .admitted n ids ∈ q.history →
        id ∈ ids → ¬Held q.history b id) ∧
      (∀ r, ¬Relation.TransGen q.Edge r r) ∧
      (0 < q.pending → (∃ lane, q.Busy lane) ∨ q.plans ≠ []) ∧
      (∀ lane, (q.lanes lane).waiting ≠ 0 → ((q.lanes lane).take lane).isSome ∧
        ((q.lanes lane).parked = 0 ∨ 0 < (q.lanes lane).awake)) ∧
      q.pending = ((range q.nextJob).countP fun n => .ended n ∉ q.history) + q.plans.length ∧
      (∀ n, q.history.count (.ended n) ≤ 1) ∧
      (∀ n ids, .admitted n ids ∈ q.history → q.pending = 0 → q.history.count (.ended n) = 1) ∧
      ∀ input lane, ((q.step long input).lanes lane).exited ≠ (q.lanes lane).exited →
        q.stopping = true ∧ q.pending = 0 := by
  intro q
  obtain ⟨⟨line, ordered⟩, -⟩ := run_sound long config inputs
  have attended : q.Attended := run_attended long config inputs
  refine ⟨ordered.recorded.orderly, ?_, ordered.acyclic, ordered.moving, fun lane waits => ⟨?_, ?_⟩,
    ordered.counted, ordered.recorded.orderly.ended_once, ?_, fun input => (attended.step long input).2⟩
  · exact fun lane n ids id b running admitted own => ordered.running_unclaimed running admitted own b
  · rw [Option.isSome_iff_ne_none]
    exact fun none => waits ((attended lane).waiting_eq_zero none)
  · refine (attended lane).woken.imp_right fun enough => ?_
    omega
  · exact fun n ids admitted drained => ordered.ended_of_drained drained admitted

/-- The second of two jobs that share target 7 waits for the first, with a worker free. -/
def sharedTarget : List Input :=
  [.start, .admitMsg { tid := 7 } false, .admitMsg { tids := [9, 7] } false, .work .short,
    .work .short, .ran .short (.job 0) false false, .work .short, .ran .short (.job 1) false false,
    .stop]

theorem dispatch_queue_serial_sharedTarget :
    let q := run (step fun _ => false) (init fun _ => ⟨2, 4⟩) sharedTarget
    q.history = [.ended 1, .started 1, .ended 0, .started 0, .admitted 1 [7, 9], .admitted 0 [7]] ∧
      q.history.count (.ended 1) = 1 :=
  have ended := (dispatch_queue_serial (fun _ => false) (fun _ => ⟨2, 4⟩) sharedTarget).2.2.2.2.2.2.2.1
  ⟨by decide, ended 1 [7, 9] (by decide) (by decide)⟩

end DispatchQueue
end Roost.Nest
