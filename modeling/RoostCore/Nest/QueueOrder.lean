import RoostCore.Nest.DispatchQueue

/-! The order the dispatch queue keeps. `Orderly` says what a history of the queue must look
like; `Ordered` is the invariant that every critical section preserves, with the line of all
registered jobs and claims that have not ended. -/
namespace Roost.Nest
open List hiding after below singleton take

namespace QueueEvent

/-- The batch holds the claim on the ID after this history (newest event first). -/
def Held : List QueueEvent → Nat → Int → Prop
  | [], _, _ => False
  | .claimed b' id' :: older, b, id => b' = b ∧ id' = id ∨ Held older b id
  | .unclaimed b' id' :: older, b, id => ¬(b' = b ∧ id' = id) ∧ Held older b id
  | _ :: older, b, id => Held older b id

section
variable {older : List QueueEvent} {n b : Nat} {id : Int}

@[simp] theorem held_admitted : Held (.admitted n ids :: older) b id ↔ Held older b id := Iff.rfl

@[simp] theorem held_ended : Held (.ended n :: older) b id ↔ Held older b id := Iff.rfl

end

/-- What may come next. Jobs are numbered in the order of admission. A job starts when
every earlier job with one of its IDs has ended and no claim on one of them is held, it
ends once, and a claim is taken on an ID that no unfinished job and no claim has. -/
def Permitted (older : List QueueEvent) : QueueEvent → Prop
  | .admitted n _ => ∀ m ids, .admitted m ids ∈ older → m < n
  | .started n => .ended n ∉ older ∧ ∃ ids, .admitted n ids ∈ older ∧ ∀ id ∈ ids,
      (∀ m ids', .admitted m ids' ∈ older → m < n → id ∈ ids' → .ended m ∈ older) ∧
        ∀ b, ¬Held older b id
  | .ended n => .started n ∈ older ∧ .ended n ∉ older
  | .claimed _ id =>
      (∀ m ids, .admitted m ids ∈ older → id ∈ ids → .ended m ∈ older) ∧ ∀ b, ¬Held older b id
  | .unclaimed b id => Held older b id

def Orderly : List QueueEvent → Prop
  | [] => True
  | event :: older => Permitted older event ∧ Orderly older

theorem Orderly.ended_once (orderly : Orderly history) (n : Nat) :
    history.count (.ended n) ≤ 1 := by
  induction history with
  | nil => simp
  | cons event older ih =>
    obtain ⟨permitted, orderly⟩ := orderly
    by_cases same : event = .ended n
    · subst same
      simp [count_eq_zero.mpr permitted.2]
    · simpa [count_cons, same] using ih orderly

end QueueEvent

open QueueEvent

theorem insertionSort_destutter_nodup (ids : List Int) :
    ((ids.insertionSort (· ≤ ·)).destutter (· ≠ ·)).Nodup := by
  have ordered : ((ids.insertionSort (· ≤ ·)).destutter (· ≠ ·)).Pairwise (· ≤ ·) :=
    (pairwise_insertionSort (· ≤ ·) ids).sublist (destutter_sublist _ _)
  have apart := isChain_destutter (· ≠ ·) (ids.insertionSort (· ≤ ·))
  -- neighbours of a sorted list that differ are in strict order
  have strict : ((ids.insertionSort (· ≤ ·)).destutter (· ≠ ·)).IsChain (· < ·) := by
    generalize (ids.insertionSort (· ≤ ·)).destutter (· ≠ ·) = sorted at ordered apart ⊢
    induction apart with
    | nil => exact .nil
    | singleton id => exact .singleton id
    | cons_cons different _ ih =>
      obtain ⟨first, rest⟩ := pairwise_cons.mp ordered
      have := first _ mem_cons_self
      exact .cons_cons (by omega) (ih rest)
  exact (isChain_iff_pairwise.mp strict).imp fun less => by omega

theorem jobIDs_nodup (msg : DispatchMsg) : (jobIDs msg).Nodup := by
  unfold jobIDs
  split
  · simp
  · split
    · simp
    · exact insertionSort_destutter_nodup _
  · exact insertionSort_destutter_nodup _

/-- Everything in the lane: ready, waiting to continue, or in the hands of a worker. -/
def DispatchLane.items (s : DispatchLane) : List Ref :=
  s.ready ++ s.tryBatches ++ s.continuations ++ s.executing

namespace DispatchQueue

def places (q : DispatchQueue) : List Ref :=
  (q.lanes .short).items ++ (q.lanes .io).items ++ (q.lanes .long).items

/-- All accepted jobs that have not ended: those in the lanes and those that still wait for
a predecessor. -/
def unfinished (q : DispatchQueue) (line : List Ref) : List Ref := q.places ++ q.turns.waiting line

/-- The graph of the registered jobs. Every edge leads to a job, from a claim or from a job
with a smaller number. -/
structure Threaded (turns : Turns Ref Int) (next : Nat) (line : List Ref) : Prop where
  linked : turns.Linked line
  known : ∀ r ∈ line, (∃ n < next, r = .job n) ∨ ∃ b i, r = .claim b i
  sorted : line.Pairwise fun r s => ∀ m n, r = .job m → s = .job n → m < n
  new : ∀ n, next ≤ n → turns.keys (.job n) = []
  batchless : ∀ b, turns.keys (.batch b) = []
  keyless : ∀ r, turns.keys r = [] → (∀ b i, r ≠ .claim b i) → turns.successors r = []
  markers : ∀ b i, turns.predecessors (.claim b i) = 0
  forward : ∀ p r, r ∈ turns.successors p → ∃ n < next, r = .job n ∧ ∀ m, p = .job m → m < n

/-- The claims in the line are those the plans of the batches show; the other markers are
clean. -/
structure Lined (q : DispatchQueue) (line : List Ref) : Prop
    extends Threaded q.turns q.nextJob line where
  claims : ∀ b i, .claim b i ∈ line ↔ ((q.batches b).group i).claimed = true
  target : ∀ b i, .claim b i ∈ line → ∃ id, q.turns.keys (.claim b i) = [id]
  cleared : ∀ b i, .claim b i ∉ line → q.turns.successors (.claim b i) = []

/-- The accepted jobs `jobs` that have not ended are counted and have numbers of their own. -/
structure Placed (q : DispatchQueue) (line jobs : List Ref) : Prop where
  distinct : (jobs.map q.serial).Nodup
  known : ∀ r ∈ jobs, (∃ n, r = .job n ∧ (q.turns.keys r ≠ [] → r ∈ line)) ∨
    ∃ b, r = .batch b ∧ (q.batches b).stage ≠ .pooled ∧ q.turns.keys (.job (q.serials b)) = []
  covered : ∀ n, .job n ∈ line → .job n ∈ jobs
  holders : ∀ b i, ((q.batches b).group i).claimed = true → .batch b ∈ jobs
  below : ∀ r ∈ jobs, q.serial r < q.nextJob
  pending : q.pending = jobs.length + q.plans.length
  reserved : q.awaitReserved = q.plans.length

structure Recorded (q : DispatchQueue) (line jobs : List Ref) : Prop where
  orderly : Orderly q.history
  admitted : ∀ n ids, .admitted n ids ∈ q.history ↔ n < q.nextJob ∧ ids = q.turns.keys (.job n)
  ended : ∀ n, .ended n ∈ q.history ↔ n < q.nextJob ∧ n ∉ jobs.map q.serial
  held : ∀ b id, Held q.history b id ↔ ∃ i, .claim b i ∈ line ∧ id ∈ q.turns.keys (.claim b i)

structure Ordered (q : DispatchQueue) (line : List Ref) : Prop where
  lined : q.Lined line
  placed : q.Placed line (q.unfinished line)
  recorded : q.Recorded line (q.unfinished line)
  started : ∀ lane, ∀ r ∈ (q.lanes lane).executing, .started (q.serial r) ∈ q.history

variable {q : DispatchQueue} {line jobs more : List Ref} {r : Ref} {n : Nat} {lane : Lane}

theorem Placed.perm (placed : q.Placed line jobs) (perm : more.Perm jobs) : q.Placed line more where
  distinct := (perm.map q.serial).nodup_iff.mpr placed.distinct
  known := fun r member => placed.known r (perm.mem_iff.mp member)
  covered := fun n member => perm.mem_iff.mpr (placed.covered n member)
  holders := fun b i claimed => perm.mem_iff.mpr (placed.holders b i claimed)
  below := fun r member => placed.below r (perm.mem_iff.mp member)
  pending := by rw [placed.pending, perm.length_eq]
  reserved := placed.reserved

theorem Recorded.perm (recorded : q.Recorded line jobs) (perm : more.Perm jobs) :
    q.Recorded line more := by
  refine { recorded with ended := ?_ }
  intro n
  rw [recorded.ended, (perm.map q.serial).mem_iff]

/-- The lanes change and still have the same items; flags and lanes of jobs do not matter. -/
theorem Ordered.lanes (ordered : q.Ordered line) {lanes : Lane → DispatchLane}
    {jobs : Ref → DispatchJob} {started stopping fenced : Bool}
    (perm : ({ q with lanes } : DispatchQueue).places.Perm q.places)
    (executing : ∀ lane, ∀ r ∈ (lanes lane).executing, .started (q.serial r) ∈ q.history) :
    ({ q with lanes, jobs, started, stopping, fenced } : DispatchQueue).Ordered line := by
  have same : (({ q with lanes } : DispatchQueue).unfinished line).Perm (q.unfinished line) :=
    perm.append_right _
  have placed := ordered.placed.perm same
  have recorded := ordered.recorded.perm same
  exact ⟨{ ordered.lined with }, { placed with }, { recorded with }, executing⟩

end DispatchQueue

namespace DispatchLane
variable {s after : DispatchLane} {lane : Lane} {j : Ref}

@[simp] theorem signal_items : s.signal.items = s.items := by
  unfold signal
  split <;> rfl

@[simp] theorem signal_executing : s.signal.executing = s.executing := by
  unfold signal
  split <;> rfl

theorem takeExternal_cases (taken : s.takeExternal lane = some (j, after)) :
    (∃ rest, s.tryBatches = j :: rest ∧
      after = { s with tryBatches := rest, preferOrdinary := true }.startExternal lane) ∨
    ∃ rest, s.ready = j :: rest ∧
      after = { s with ready := rest, preferOrdinary := false }.startExternal lane := by
  unfold takeExternal at taken
  split at taken
  case h_1 => cases taken
  case h_2 b rest batches _ =>
    cases taken
    exact .inl ⟨rest, batches, rfl⟩
  case h_3 j rest _ ready =>
    cases taken
    exact .inr ⟨rest, ready, rfl⟩
  case h_4 b batchRest j rest batches ready =>
    split at taken
    · cases taken
      exact .inr ⟨rest, ready, rfl⟩
    · cases taken
      exact .inl ⟨batchRest, batches, rfl⟩

/-- What a worker can take: a continuation, a batch or an ordinary job, each the oldest of
its list. -/
theorem take_cases (taken : s.take lane = some (j, after)) :
    (∃ rest, s.continuations = j :: rest ∧ lane ≠ .io ∧ after =
      { s with
        preferContinuation := false
        continuationCount := s.continuationCount - 1
        continuationRunning := s.continuationRunning + 1
        continuations := rest }) ∨
    (∃ rest, s.tryBatches = j :: rest ∧
      after = { s with tryBatches := rest, preferOrdinary := true }.startExternal lane) ∨
    ∃ rest, s.ready = j :: rest ∧
      after = { s with ready := rest, preferOrdinary := false }.startExternal lane := by
  unfold take at taken
  split at taken
  case h_1 c rest continuations =>
    split at taken
    case isTrue preferred =>
      cases taken
      exact .inl ⟨rest, continuations, preferred.1, rfl⟩
    case isFalse => exact .inr (takeExternal_cases taken)
  case h_2 => exact .inr (takeExternal_cases taken)

theorem take_items (taken : s.take lane = some (j, after)) :
    (j :: after.items).Perm s.items ∧ after.executing = s.executing := by
  rcases take_cases taken with ⟨rest, first, -, rfl⟩ | ⟨rest, first, rfl⟩ | ⟨rest, first, rfl⟩
  all_goals
    refine ⟨perm_iff_count.mpr fun r => ?_, rfl⟩
    simp only [items, startExternal, first, count_append, count_cons]
    omega

end DispatchLane

namespace DispatchQueue
variable {q : DispatchQueue} {line jobs more : List Ref} {r : Ref} {n : Nat} {lane : Lane}

theorem places_setLane (gone come : List Ref)
    (perm : (gone ++ s.items).Perm (come ++ (q.lanes lane).items)) :
    (gone ++ (q.setLane lane s).places).Perm (come ++ q.places) := by
  refine perm_iff_count.mpr fun r => ?_
  have counts := perm.count_eq r
  cases lane <;>
    simp [places, setLane, count_append] at counts ⊢ <;> omega

theorem admitLocked_ok (ok : q.admitLocked lane ids = .ok after) :
    after = q.registerLocked lane ids := by
  rw [admitLocked] at ok
  split at ok
  · cases ok
  · exact (Except.ok.inj ok).symm

theorem admitTryBatch_ok (ok : q.admitTryBatch b lane items = .ok after) :
    after = q.registerTryBatch b lane items := by
  simp only [admitTryBatch] at ok
  split at ok
  · cases ok
  split at ok
  · cases ok
  · exact (Except.ok.inj ok).symm

theorem mem_places_of_items (member : r ∈ (q.lanes lane).items) : r ∈ q.places := by
  cases lane <;> simp [places, member]

theorem mem_places (member : r ∈ (q.lanes lane).executing) : r ∈ q.places :=
  mem_places_of_items (mem_append_right _ member)

/-- `after` is `q` with the items `more` added to its lanes. -/
structure Enqueued (q : DispatchQueue) (more : List Ref) (after : DispatchQueue) : Prop where
  frame : after = { q with lanes := after.lanes }
  places : after.places.Perm (more ++ q.places)
  executing : ∀ lane, (after.lanes lane).executing = (q.lanes lane).executing

theorem Enqueued.lanes (enqueued : Enqueued q more after) : ∃ lanes, after = { q with lanes } ∧
      ({ q with lanes } : DispatchQueue).places.Perm (more ++ q.places) ∧
      ∀ lane, (lanes lane).executing = (q.lanes lane).executing :=
  ⟨after.lanes, enqueued.frame, enqueued.frame ▸ enqueued.places, enqueued.executing⟩

theorem Enqueued.trans (first : Enqueued q jobs after) (second : Enqueued after more last) :
    Enqueued q (more ++ jobs) last where
  frame := by rw [second.frame, first.frame]
  places := by
    rw [append_assoc]
    exact second.places.trans (first.places.append_left more)
  executing := fun lane => (second.executing lane).trans (first.executing lane)

section
variable (q : DispatchQueue)

theorem setLane_executing (lane : Lane)
    (same : s.executing = (q.lanes lane).executing) (other : Lane) :
    ((q.setLane lane s).lanes other).executing = (q.lanes other).executing := by
  by_cases own : other = lane
  · subst own
    simpa [setLane] using same
  · simp [setLane, own]

theorem counted_spec (lane : Lane) (items : s.items = (q.lanes lane).items)
    (executing : s.executing = (q.lanes lane).executing) : Enqueued q [] (q.setLane lane s) :=
  ⟨rfl, places_setLane [] [] (.of_eq (congrArg _ items)), setLane_executing q lane executing⟩

theorem enqueueReady_spec (lane : Lane) (j : Ref) :
    Enqueued q [j] (q.enqueueReady lane j) where
  frame := rfl
  places := by
    refine places_setLane [] [j] (perm_iff_count.mpr fun r => ?_)
    rw [DispatchLane.signal_items]
    cases j <;>
      simp only [DispatchLane.items, count_append, nil_append, cons_append,
        count_cons, count_nil] <;>
      omega
  executing := by
    refine setLane_executing q lane ?_
    cases j <;> exact DispatchLane.signal_executing

theorem countedReady_spec (lane : Lane) (j : Ref)
    (items : s.items = (q.lanes lane).items) (executing : s.executing = (q.lanes lane).executing) :
    Enqueued q [j] ((q.setLane lane s).enqueueReady lane j) := by
  have both := (counted_spec q lane items executing).trans (enqueueReady_spec _ lane j)
  exact both

theorem enqueueAll_spec (freed : List Ref) (q : DispatchQueue) :
    Enqueued q freed (freed.foldl (fun q next => q.enqueueReady (q.jobs next).lane next) q) := by
  induction freed generalizing q with
  | nil => exact ⟨rfl, .refl _, fun _ => rfl⟩
  | cons next rest ih =>
    have both := (enqueueReady_spec q _ next).trans (ih (q.enqueueReady (q.jobs next).lane next))
    exact ⟨both.frame, both.places.trans ((perm_append_singleton next rest).append_right _),
      both.executing⟩

theorem releaseIDsLocked_spec (j : Ref) :
    Enqueued { q with turns := (q.turns.release j).1 } (q.turns.release j).2 (q.releaseIDsLocked j) :=
  enqueueAll_spec _ _

end

theorem Ordered.busy (ordered : q.Ordered line) (member : .batch b ∈ q.unfinished line) :
    (q.batches b).stage ≠ .pooled := by
  rcases ordered.placed.known _ member with ⟨n, same, -⟩ | ⟨b', same, busy, -⟩
  · cases same
  · cases same
    exact busy

section facts
variable (ordered : q.Ordered line)
include ordered

theorem Ordered.unblocked (placed : r ∈ q.places) (member : r ∈ line) :
    q.turns.predecessors r = 0 := by
  by_contra blocked
  have waits : r ∈ q.turns.waiting line := by
    have counted := ordered.lined.linked.counted r member
    simp only [Turns.waiting, mem_filter, decide_eq_true_eq]
    exact ⟨member, by omega⟩
  have distinct := ordered.placed.distinct
  rw [unfinished, map_append] at distinct
  exact (nodup_append.mp distinct).2.2 _ (mem_map_of_mem placed) _
    (mem_map_of_mem waits) rfl

/-- A job with targets has ended exactly when it has left the line. -/
theorem Ordered.live (keyed : q.turns.keys (.job n) ≠ []) :
    .job n ∈ line ↔ .ended n ∉ q.history := by
  have below : n < q.nextJob := by
    by_contra new
    exact keyed (ordered.lined.new n (by omega))
  rw [ordered.recorded.ended n]
  constructor
  · intro member gone
    exact gone.2 (mem_map.mpr ⟨.job n, ordered.placed.covered n member, rfl⟩)
  · intro alive
    have present : n ∈ (q.unfinished line).map q.serial := by
      by_contra gone
      exact alive ⟨below, gone⟩
    obtain ⟨r, member, same⟩ := mem_map.mp present
    rcases ordered.placed.known r member with ⟨m, rfl, inside⟩ | ⟨b, rfl, -, keyless⟩
    · obtain rfl : m = n := same
      exact inside keyed
    · obtain rfl : q.serials b = n := same
      exact absurd keyless keyed

/-- Nobody that has not ended holds an ID without a last holder. -/
theorem Ordered.free {id : Int} (free : q.turns.tails id = none) :
    (∀ m ids, .admitted m ids ∈ q.history → id ∈ ids → .ended m ∈ q.history) ∧
      ∀ b, ¬Held q.history b id := by
  constructor
  · intro m ids admitted holds
    obtain ⟨-, rfl⟩ := (ordered.recorded.admitted m ids).mp admitted
    by_contra alive
    have member := (ordered.live (ne_nil_of_mem holds)).mpr alive
    exact ordered.lined.linked.free free member holds
  · intro b held
    obtain ⟨i, member, holds⟩ := (ordered.recorded.held b id).mp held
    exact ordered.lined.linked.free free member holds

/-- An item of a lane may start: nobody before it shares an ID with it, and no claim does. -/
theorem Ordered.permitted (placed : r ∈ q.places) : Permitted q.history (.started (q.serial r)) := by
  have member : r ∈ q.unfinished line := mem_append_left _ placed
  have below := ordered.placed.below r member
  have alive : .ended (q.serial r) ∉ q.history := by
    intro ended
    exact ((ordered.recorded.ended _).mp ended).2 (mem_map_of_mem member)
  refine ⟨alive, _, (ordered.recorded.admitted _ _).mpr ⟨below, rfl⟩, fun id holds => ?_⟩
  obtain ⟨n, rfl, own⟩ : ∃ n, r = .job n ∧ r ∈ line := by
    rcases ordered.placed.known r member with ⟨n, rfl, inside⟩ | ⟨b, rfl, -, keyless⟩
    · exact ⟨n, rfl, inside (ne_nil_of_mem holds)⟩
    · simp only [DispatchQueue.serial, keyless, not_mem_nil] at holds
  have clear := ordered.unblocked placed own
  constructor
  · intro m ids admitted earlier shared
    obtain ⟨-, rfl⟩ := (ordered.recorded.admitted m ids).mp admitted
    by_contra unended
    have other : Ref.job m ∈ line := (ordered.live (ne_nil_of_mem shared)).mpr unended
    obtain ⟨before, after, rfl⟩ := append_of_mem own
    rcases mem_append.mp other with first | last
    · exact ordered.lined.linked.front_before clear holds first shared
    rcases mem_cons.mp last with same | last
    · exact Nat.ne_of_lt earlier (Ref.job.inj same)
    have later := (pairwise_append.mp ordered.lined.sorted).2.1
    have : n < m := (pairwise_cons.mp later).1 _ last n m rfl rfl
    exact Nat.lt_asymm earlier this
  · intro b held
    obtain ⟨i, claim, shared⟩ := (ordered.recorded.held b id).mp held
    have same := ordered.lined.linked.front_unique own claim clear (ordered.lined.markers b i)
      holds shared
    cases same

end facts

end DispatchQueue
end Roost.Nest
