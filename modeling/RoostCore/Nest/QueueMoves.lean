import RoostCore.Nest.QueueOrder

/-! What each critical section of the dispatch queue does to its order: claims, admissions,
starts and ends of jobs keep the invariant. -/
namespace Roost.Nest
open QueueEvent Function
open List hiding after below count tail
open Turns DispatchQueue

namespace DispatchQueue
variable {q : DispatchQueue} {line jobs more : List Ref} {r : Ref} {n next : Nat} {lane : Lane}

theorem Threaded.release {turns : Turns Ref Int} (threaded : Threaded turns next line)
    (member : r ∈ line) (clear : turns.predecessors r = 0) :
    Threaded (turns.release r).1 next (line.erase r) where
  linked := threaded.linked.release member clear
  known := fun r inside => threaded.known r (mem_of_mem_erase inside)
  sorted := threaded.sorted.sublist erase_sublist
  new := by simpa only [release_keys] using threaded.new
  batchless := by simpa only [release_keys] using threaded.batchless
  keyless := by simpa only [release_keys, release_successors] using threaded.keyless
  markers := by
    intro b i
    have apart : Ref.claim b i ∉ turns.successors r := by
      intro edge
      obtain ⟨n, -, same, -⟩ := threaded.forward r _ edge
      cases same
    rw [threaded.linked.release_predecessors member, if_neg apart, threaded.markers b i]
    rfl
  forward := by simpa only [release_successors] using threaded.forward

/-- Claims and lanes change, the accepted jobs and their numbers do not. -/
theorem Ordered.keep (ordered : q.Ordered line) {after : DispatchQueue} (frame : after = { q with
      lanes := after.lanes, turns := after.turns, batches := after.batches, jobs := after.jobs
      history := after.history })
    (lined : after.Lined rest) (perm : (after.unfinished rest).Perm (q.unfinished line))
    (inside : ∀ n, .job n ∈ rest ↔ .job n ∈ line)
    (keys : ∀ n, after.turns.keys (.job n) = q.turns.keys (.job n))
    (busy : ∀ b, .batch b ∈ q.unfinished line → (after.batches b).stage ≠ .pooled)
    (holders : ∀ b i, ((after.batches b).group i).claimed = true → .batch b ∈ q.unfinished line)
    (orderly : Orderly after.history)
    (admitted : ∀ n ids, .admitted n ids ∈ after.history ↔ .admitted n ids ∈ q.history)
    (ended : ∀ n, .ended n ∈ after.history ↔ .ended n ∈ q.history)
    (held : ∀ b id, Held after.history b id ↔
      ∃ i, .claim b i ∈ rest ∧ id ∈ after.turns.keys (.claim b i))
    (started : ∀ lane, ∀ r ∈ (after.lanes lane).executing, .started (q.serial r) ∈ after.history) :
    after.Ordered rest := by
  have placed := ordered.placed.perm perm
  have recorded := ordered.recorded.perm perm
  rw [frame] at lined ⊢
  refine ⟨lined, { placed with known := ?_, covered := ?_, holders := ?_ },
    ⟨orderly, fun n ids => ?_, fun n => (ended n).trans (recorded.ended n), held⟩, started⟩
  · intro r member
    rcases placed.known r member with ⟨n, rfl, keyed⟩ | ⟨b, rfl, -, keyless⟩
    · exact .inl ⟨n, rfl, fun holds => (inside n).mpr (keyed (keys n ▸ holds))⟩
    · exact .inr ⟨b, rfl, busy b (perm.mem_iff.mp member), (keys _).trans keyless⟩
  · exact fun n member => placed.covered n ((inside n).mp member)
  · exact fun b i claimed => perm.mem_iff.mpr (holders b i claimed)
  · rw [keys n]
    exact (admitted n ids).trans (recorded.admitted n ids)

section claims
variable {b i : Nat} {id : Int}

@[simp] theorem claimLocked_keys :
    (q.claimLocked b i id).turns.keys = update q.turns.keys (.claim b i) [id] := rfl

theorem setBatch_batches (batch : TryBatchJob) (b' : Nat) :
    (q.setBatch b batch).batches b' = if b' = b then batch else q.batches b' :=
  update_apply ..

@[simp] theorem setPlan_stage (plan : TryBatchPlan) (b' : Nat) :
    ((q.setPlan b i plan).batches b').stage = (q.batches b').stage := by
  grind [setPlan, setBatch_batches]

theorem setPlan_group (plan : TryBatchPlan) (b' i' : Nat) :
    ((q.setPlan b i plan).batches b').group i' =
      if b' = b ∧ i' = i then plan else (q.batches b').group i' := by
  rw [setPlan, setBatch_batches]
  by_cases same : b' = b
  · subst same
    simp [update_apply]
  · simp [same]

@[simp] theorem claimLocked_stage (b' : Nat) :
    ((q.claimLocked b i id).batches b').stage = (q.batches b').stage := by
  rw [claimLocked, log, setPlan_stage]

theorem claimLocked_group (b' i' : Nat) : ((q.claimLocked b i id).batches b').group i' =
      if b' = b ∧ i' = i then { claimed := true } else (q.batches b').group i' := by
  rw [claimLocked, log, setPlan_group]

@[simp] theorem claimLocked_serials : (q.claimLocked b i id).serials = q.serials := rfl

@[simp] theorem claimLocked_history :
    (q.claimLocked b i id).history = .claimed b id :: q.history := rfl

@[simp] theorem claimLocked_nextJob : (q.claimLocked b i id).nextJob = q.nextJob := rfl

/-- A marker that is in no line becomes the holder of an ID that nobody holds. -/
theorem Threaded.claim {turns : Turns Ref Int} (threaded : Threaded turns next line)
    (free : turns.tails id = none) (new : Ref.claim b i ∉ line)
    (cleared : turns.successors (.claim b i) = []) :
    Threaded ((turns.rekey (.claim b i) [id]).setTail id (.claim b i)) next
      (line ++ [.claim b i]) := by
  constructor
  case linked =>
    have registered := (threaded.linked.rekey new [id]).register new (by simp)
      (threaded.markers b i) cleared
    rwa [rekey_register free] at registered
  case known =>
    intro r member
    rcases mem_append.mp member with old | last
    · exact threaded.known r old
    · exact .inr ⟨b, i, by simpa using last⟩
  case sorted =>
    refine pairwise_append.mpr ⟨threaded.sorted, by simp, ?_⟩
    intro r _ r' last m n _ same
    simp [same] at last
  case new => exact fun n above => by simpa using threaded.new n above
  case batchless => exact fun b' => by simpa using threaded.batchless b'
  case keyless =>
    intro r keyless marker
    refine threaded.keyless r ?_ marker
    simpa [marker b i] using keyless
  case markers => exact threaded.markers
  case forward => exact threaded.forward

theorem Lined.claim (lined : q.Lined line) (free : q.turns.tails id = none)
    (unclaimed : ((q.batches b).group i).claimed = false) :
    (q.claimLocked b i id).Lined (line ++ [.claim b i]) := by
  have new : Ref.claim b i ∉ line := by simp [lined.claims, unclaimed]
  refine ⟨lined.toThreaded.claim free new (lined.cleared b i new), fun b' i' => ?_,
    fun b' i' member => ?_, fun b' i' outside => ?_⟩
  · rw [mem_append, mem_singleton, lined.claims, claimLocked_group]
    by_cases same : b' = b ∧ i' = i
    · simp [same]
    · simp [same]
  · by_cases same : Ref.claim b' i' = .claim b i
    · exact ⟨id, by simp [same]⟩
    · obtain ⟨old, only⟩ := lined.target b' i' (by simpa [same] using member)
      exact ⟨old, by simpa [same] using only⟩
  · exact lined.cleared b' i' fun member => outside (mem_append_left _ member)

theorem claimLocked_unfinished (lined : q.Lined line) :
    (q.claimLocked b i id).unfinished (line ++ [.claim b i]) = q.unfinished line := by
  have clear : (q.claimLocked b i id).turns.predecessors (.claim b i) = 0 := lined.markers b i
  rw [unfinished, waiting, filter_append, filter_singleton, clear]
  simp only [Int.lt_irrefl, decide_false, cond_false, append_nil]
  rfl

theorem Ordered.claim (ordered : q.Ordered line) (free : q.turns.tails id = none)
    (unclaimed : ((q.batches b).group i).claimed = false) (used : .batch b ∈ q.unfinished line) :
    (q.claimLocked b i id).Ordered (line ++ [.claim b i]) := by
  have new : Ref.claim b i ∉ line := by simp [ordered.lined.claims, unclaimed]
  have recorded := ordered.recorded
  refine ordered.keep rfl (ordered.lined.claim free unclaimed)
    (.of_eq (claimLocked_unfinished ordered.lined)) (by simp) (by simp)
    (fun b' member => by simpa using ordered.busy member) (fun b' i' claimed => ?_)
    ⟨ordered.free free, recorded.orderly⟩ (by simp) (by simp) (fun b' id' => ?_)
    fun lane r member => mem_cons_of_mem _ (ordered.started lane r member)
  · rw [claimLocked_group] at claimed
    split at claimed
    case isTrue same => exact same.1 ▸ used
    case isFalse => exact ordered.placed.holders b' i' claimed
  · rw [claimLocked_history, Held, recorded.held]
    constructor
    · rintro (⟨rfl, rfl⟩ | ⟨i', member, holds⟩)
      · exact ⟨i, by simp, by simp⟩
      · have other : Ref.claim b' i' ≠ .claim b i := fun same => new (same ▸ member)
        exact ⟨i', mem_append_left _ member, by simpa [other] using holds⟩
    · rintro ⟨i', member, holds⟩
      rcases mem_append.mp member with old | last
      · have other : Ref.claim b' i' ≠ .claim b i := fun same => new (same ▸ old)
        exact .inr ⟨i', old, by simpa [other] using holds⟩
      · obtain ⟨rfl, rfl⟩ : b' = b ∧ i' = i := by simpa using last
        exact .inl ⟨rfl, by simpa [eq_comm] using holds⟩

theorem Threaded.clear {turns : Turns Ref Int} (threaded : Threaded turns next line)
    (gone : Ref.claim b i ∉ line) : Threaded (turns.clear (.claim b i)) next line := by
  refine { threaded with linked := threaded.linked.clear gone, keyless := ?_, forward := ?_ }
  · intro r keyless marker
    simpa [Turns.clear, marker b i] using threaded.keyless r keyless marker
  · intro p r edge
    by_cases same : p = .claim b i
    · simp [Turns.clear, same] at edge
    · exact threaded.forward p r (by simpa [Turns.clear, same] using edge)

/-- Who shares its ID with nobody else in the line is the only claim on it. -/
theorem Lined.claim_unique (lined : q.Lined line) (first : .claim b i ∈ line)
    (second : .claim b' i' ∈ line) (holds : id ∈ q.turns.keys (.claim b i))
    (holds' : id ∈ q.turns.keys (.claim b' i')) : Ref.claim b i = .claim b' i' :=
  lined.linked.front_unique first second (lined.markers b i) (lined.markers b' i') holds holds'

theorem releaseClaimLocked_eq (claimed : ((q.batches b).group i).claimed = true)
    (only : q.turns.keys (.claim b i) = [id]) :
    ∃ lanes, releaseClaimLocked b q i =
        ({ q with
          lanes
          turns := (q.turns.release (.claim b i)).1.clear (.claim b i)
          history := .unclaimed b id :: q.history } : DispatchQueue).setPlan b i
            { (q.batches b).group i with claimed := false } ∧
      ({ q with lanes } : DispatchQueue).places.Perm ((q.turns.release (.claim b i)).2 ++ q.places) ∧
      ∀ lane, (lanes lane).executing = (q.lanes lane).executing := by
  obtain ⟨lanes, frame, places, executing⟩ := (releaseIDsLocked_spec q (.claim b i)).lanes
  refine ⟨lanes, ?_, places, executing⟩
  simp only [releaseClaimLocked, if_pos claimed, only, frame]
  rfl

theorem Ordered.releaseClaim (ordered : q.Ordered line) :
    (releaseClaimLocked b q i).Ordered (line.erase (.claim b i)) := by
  by_cases claimed : ((q.batches b).group i).claimed = true
  case neg =>
    have outside : Ref.claim b i ∉ line := by simpa [ordered.lined.claims] using claimed
    rw [releaseClaimLocked, if_neg claimed, erase_of_not_mem outside]
    exact ordered
  case pos =>
    have lined := ordered.lined
    have recorded := ordered.recorded
    have member : Ref.claim b i ∈ line := (lined.claims b i).mpr claimed
    have gone : Ref.claim b i ∉ line.erase (.claim b i) := lined.linked.distinct.not_mem_erase
    have stays : ∀ {r}, r ∈ line.erase (.claim b i) ↔ r ≠ .claim b i ∧ r ∈ line :=
      lined.linked.distinct.mem_erase_iff
    obtain ⟨id, only⟩ := lined.target b i member
    obtain ⟨lanes, frame, places, executing⟩ := releaseClaimLocked_eq claimed only
    rw [frame]
    have same : ((({ q with lanes } : DispatchQueue).places) ++
        (q.turns.release (.claim b i)).1.waiting (line.erase (.claim b i))).Perm
          (q.unfinished line) := by
      have waiting := lined.linked.release_waiting member (lined.markers b i)
      refine (places.append_right _).trans (List.Perm.trans ?_ (waiting.append_left q.places))
      refine perm_iff_count.mpr fun r => ?_
      simp only [count_append]
      omega
    refine ordered.keep rfl ⟨(lined.toThreaded.release member (lined.markers b i)).clear gone, ?_, ?_, ?_⟩
      same (by simp [stays]) (by simp [setPlan, setBatch, clear, release_keys])
      (fun b' member => by simpa using ordered.busy member) (fun b' i' held => ?_)
      ⟨(recorded.held b id).mpr ⟨i, member, by simp [only]⟩, recorded.orderly⟩ (by simp [setPlan, setBatch])
      (by simp [setPlan, setBatch]) (fun b' id' => ?_) fun lane r inside => ?_
    · intro b' i'
      rw [setPlan_group, stays, lined.claims]
      by_cases own : b' = b ∧ i' = i
      · simp [own]
      · simp [own]
    · intro b' i' inside
      obtain ⟨old, only⟩ := lined.target b' i' (stays.mp inside).2
      exact ⟨old, by simpa [setPlan, setBatch, clear, release_keys] using only⟩
    · intro b' i' outside
      by_cases own : Ref.claim b' i' = .claim b i
      · simp [setPlan, setBatch, clear, own]
      have out : Ref.claim b' i' ∉ line := fun inside => outside (stays.mpr ⟨own, inside⟩)
      simpa [setPlan, setBatch, clear, own, release_successors] using
        lined.cleared b' i' out
    · rw [setPlan_group] at held
      split at held
      · cases held
      · exact ordered.placed.holders b' i' held
    · simp only [setPlan, setBatch, Held, recorded.held, clear, release_keys, stays]
      constructor
      · rintro ⟨other, i', inside, holds⟩
        refine ⟨i', ⟨fun same => other ?_, inside⟩, holds⟩
        obtain ⟨rfl, rfl⟩ : b' = b ∧ i' = i := by simpa using same
        rw [only] at holds
        exact ⟨rfl, by simpa [eq_comm] using holds⟩
      · rintro ⟨i', ⟨other, inside⟩, holds⟩
        refine ⟨?_, i', inside, holds⟩
        rintro ⟨rfl, rfl⟩
        exact other (lined.claim_unique inside member holds (by simp [only]))
    · exact mem_cons_of_mem _ (ordered.started lane r (executing lane ▸ inside))

end claims

section admission
variable {ids : List Int}

/-- The graph with a new job at the end of the line. -/
def registered (turns : Turns Ref Int) (n : Nat) (ids : List Int) : Turns Ref Int :=
  (turns.allocate (.job n) ids).register (.job n)

variable {turns : Turns Ref Int} {next : Nat} (threaded : Threaded turns next line)
include threaded

theorem Threaded.below (m : Nat) (member : Ref.job m ∈ line) : m < next := by
  rcases threaded.known _ member with ⟨n, small, same⟩ | ⟨b, i, same⟩
  · cases same
    exact small
  · cases same

theorem Threaded.unused : Ref.job next ∉ line :=
  fun member => Nat.lt_irrefl _ (threaded.below next member)

section
variable (distinct : ids.Nodup)
include distinct

theorem Threaded.joined :
    Turns.Joined (.job next) (turns.allocate (.job next) ids) ids (registered turns next ids) := by
  have new := threaded.unused
  have keys : (turns.allocate (.job next) ids).keys (.job next) = ids := by simp [allocate]
  have joined := (threaded.linked.allocate new ids).joined new (by rwa [keys])
  rwa [keys] at joined

theorem Threaded.registered_keys (r : Ref) (other : r ≠ .job next) :
    (registered turns next ids).keys r = turns.keys r := by
  rw [(threaded.joined distinct).keys]
  simp [allocate, other]

theorem Threaded.registered_own :
    (registered turns next ids).keys (.job next) = ids := by
  rw [(threaded.joined distinct).keys]
  simp [allocate]

theorem Threaded.admitMsg (keyed : ids ≠ []) :
    Threaded (registered turns next ids) (next + 1) (line ++ [.job next]) := by
  have joined := threaded.joined distinct
  have new := threaded.unused
  have keys := threaded.registered_keys distinct
  have own := threaded.registered_own distinct
  constructor
  case linked =>
    refine (threaded.linked.allocate new ids).register new ?_ ?_ ?_
    all_goals simp [allocate, distinct]
  case known =>
    intro r member
    rcases mem_snoc.mp member with old | rfl
    · rcases threaded.known r old with ⟨n, small, same⟩ | claim
      · exact .inl ⟨n, by omega, same⟩
      · exact .inr claim
    · exact .inl ⟨next, by omega, rfl⟩
  case sorted =>
    refine pairwise_append.mpr ⟨threaded.sorted, by simp, ?_⟩
    intro r member r' last m n same same'
    rw [mem_singleton.mp last] at same'
    cases same'
    exact threaded.below m (same ▸ member)
  case new =>
    intro n above
    rw [keys _ fun same => by cases same; omega]
    exact threaded.new n (by omega)
  case batchless => exact fun b => (keys (.batch b) (by simp)).trans (threaded.batchless b)
  case keyless =>
    intro r keyless marker
    have other : r ≠ .job next := fun same => keyed (by rw [← own, ← same, keyless])
    rw [keys r other] at keyless
    rw [joined.successors r, if_neg]
    · simpa [allocate, other] using threaded.keyless r keyless marker
    · rintro ⟨id, -, tail⟩
      have holds := (threaded.linked.tail_mem tail).2
      simp [keyless] at holds
  case markers =>
    intro b i
    rw [joined.others (.claim b i) (by simp)]
    simpa [allocate] using threaded.markers b i
  case forward =>
    intro p r edge
    have old : r ∈ (turns.allocate (.job next) ids).successors p →
        ∃ n < next + 1, r = .job n ∧ ∀ m, p = .job m → m < n := by
      intro edge
      have other : p ≠ .job next := fun same => by simp [allocate, same] at edge
      obtain ⟨n, small, same, order⟩ := threaded.forward p r (by simpa [allocate, other] using edge)
      exact ⟨n, by omega, same, order⟩
    rw [joined.successors p] at edge
    split at edge
    case isTrue held =>
      obtain ⟨id, -, tail⟩ := held
      rcases mem_append.mp edge with edge | last
      · exact old edge
      refine ⟨next, by omega, by simpa using last, ?_⟩
      rintro m rfl
      exact threaded.below m (threaded.linked.tail_mem tail).1
    case isFalse => exact old edge

theorem Threaded.admit_waiting :
    ((if (registered turns next ids).predecessors (.job next) = 0 then [Ref.job next] else []) ++
      (registered turns next ids).waiting (line ++ [.job next])).Perm
        (.job next :: turns.waiting line) := by
  have new := threaded.unused
  have waiting := (threaded.linked.allocate new ids).register_waiting new
    (by simpa [allocate] using distinct)
  have old : (turns.allocate (.job next) ids).waiting line = turns.waiting line := by
    refine filter_congr fun r member => ?_
    have other : r ≠ .job next := fun same => new (same ▸ member)
    simp [allocate, other]
  have count : 0 ≤ (registered turns next ids).predecessors (.job next) := by
    rw [(threaded.joined distinct).own]
    simp [allocate]
  rw [registered] at count ⊢
  rw [waiting, old]
  split
  case isTrue zero => simp [zero]
  case isFalse some =>
    rw [if_pos (by omega)]
    exact perm_append_singleton _ _

end

omit threaded

theorem registerLocked_spec (q : DispatchQueue) (lane : Lane) (ids : List Int) : Enqueued
      { q with
        turns := registered q.turns q.nextJob ids
        jobs := update q.jobs (.job q.nextJob) { lane }
        nextJob := q.nextJob + 1
        pending := q.pending + 1
        history := .admitted q.nextJob ids :: q.history }
      (if (registered q.turns q.nextJob ids).predecessors (.job q.nextJob) = 0
        then [Ref.job q.nextJob] else []) (q.registerLocked lane ids) := by
  simp only [registerLocked]
  split
  case isTrue ready =>
    rw [registered] at ready
    rw [if_pos ready]
    exact countedReady_spec _ lane _ rfl rfl
  case isFalse blocked =>
    rw [registered] at blocked
    rw [if_neg blocked]
    exact counted_spec _ lane rfl rfl

section
variable (ordered : q.Ordered line)
include ordered

theorem Ordered.fresh : q.nextJob ∉ (q.unfinished line).map q.serial := by
  intro member
  obtain ⟨r, inside, same⟩ := mem_map.mp member
  have := ordered.placed.below r inside
  omega

theorem Ordered.numbered (ids : List Int) : Permitted q.history (.admitted q.nextJob ids) :=
  fun m ids' admitted => ((ordered.recorded.admitted m ids').mp admitted).1

theorem Ordered.ended_cons (ids : List Int) (n : Nat) :
    .ended n ∈ QueueEvent.admitted q.nextJob ids :: q.history ↔
      n < q.nextJob + 1 ∧ n ∉ q.nextJob :: (q.unfinished line).map q.serial := by
  rw [mem_cons, or_iff_right (by simp), ordered.recorded.ended n, mem_cons, not_or]
  constructor
  · rintro ⟨small, outside⟩
    exact ⟨by omega, by omega, outside⟩
  · rintro ⟨small, other, outside⟩
    exact ⟨by omega, outside⟩

theorem Ordered.accept {after : DispatchQueue} (j : Ref) (ids : List Int)
    (threaded : Threaded after.turns after.nextJob longer) (nextJob : after.nextJob = q.nextJob + 1)
    (new : j = .job q.nextJob ∨ ids = [] ∧ ∃ b, j = .batch b)
    (inside : ∀ r, r ∈ longer ↔ r ∈ line ∨ r = j ∧ ids ≠ [])
    (keys : ∀ r, after.turns.keys r = if r = .job q.nextJob then ids else q.turns.keys r)
    (cleared : ∀ b i, .claim b i ∉ line → after.turns.successors (.claim b i) = [])
    (claims : ∀ b i, ((after.batches b).group i).claimed = ((q.batches b).group i).claimed)
    (busy : ∀ b, .batch b = j ∨ .batch b ∈ q.unfinished line → (after.batches b).stage ≠ .pooled)
    (serials : ∀ r ∈ q.unfinished line, after.serial r = q.serial r)
    (own : after.serial j = q.nextJob)
    (jobs : (after.unfinished longer).Perm (j :: q.unfinished line))
    (history : after.history = .admitted q.nextJob ids :: q.history)
    (executing : ∀ lane, (after.lanes lane).executing = (q.lanes lane).executing)
    (pending : after.pending - after.plans.length = q.pending - q.plans.length + 1)
    (reserved : after.awaitReserved = after.plans.length) : after.Ordered longer := by
  have placed := ordered.placed
  have recorded := ordered.recorded
  have numbers : (j :: q.unfinished line).map after.serial = q.nextJob :: (q.unfinished line).map q.serial := by
    rw [map_cons, own, map_congr_left serials]
  have carried {lane : Lane} {r : Ref} (member : r ∈ (q.lanes lane).executing) : r ∈ q.unfinished line :=
    mem_append_left _ (mem_places member)
  refine ⟨⟨threaded, ?_, ?_, ?_⟩, Placed.perm ⟨?_, fun r member => ?_, ?_, ?_, fun r member => ?_, ?_, reserved⟩ jobs,
    Recorded.perm ⟨history ▸ ⟨ordered.numbered ids, recorded.orderly⟩, ?_, ?_, fun b id => ?_⟩ jobs, ?_⟩
  · grind [ordered.lined.claims]
  · grind [ordered.lined.target]
  · grind
  · rw [numbers]
    exact nodup_cons.mpr ⟨ordered.fresh, placed.distinct⟩
  · rcases mem_cons.mp member with rfl | old
    · rcases new with rfl | ⟨rfl, b, rfl⟩
      · exact .inl ⟨_, rfl, by grind⟩
      · exact .inr ⟨b, rfl, busy b (.inl rfl), by grind [serial]⟩
    · have small := placed.below r old
      rcases placed.known r old with ⟨n, rfl, keyed⟩ | ⟨b, rfl, -, keyless⟩
      · exact .inl ⟨n, rfl, by grind [serial]⟩
      · have same : after.serials b = q.serials b := serials _ old
        exact .inr ⟨b, rfl, busy b (.inr old), by grind [serial]⟩
  · grind [placed.covered]
  · grind [placed.holders]
  · rcases mem_cons.mp member with rfl | old
    · omega
    have small := placed.below r old
    rw [serials r old]
    omega
  · grind [placed.pending]
  · grind [recorded.admitted]
  · rw [history, numbers, nextJob]
    exact ordered.ended_cons ids
  · rw [history, held_admitted, recorded.held]
    grind
  · grind [ordered.started]

theorem Ordered.admitMsg (distinct : ids.Nodup) (keyed : ids ≠ [])
    {after : DispatchQueue} (ok : q.admitLocked lane ids = .ok after) :
    after.Ordered (line ++ [.job q.nextJob]) := by
  have lined := ordered.lined
  obtain ⟨lanes, frame, places, executing⟩ := (registerLocked_spec q lane ids).lanes
  rw [admitLocked_ok ok, frame]
  have serial (r : Ref) : ({ q with lanes } : DispatchQueue).serial r = q.serial r := by cases r <;> rfl
  refine ordered.accept (.job q.nextJob) ids (lined.toThreaded.admitMsg distinct keyed) rfl (.inl rfl) ?_ (fun r => ?_)
    (fun b i out => ?_) (fun _ _ => rfl) (by simpa using fun b => ordered.busy) (fun r _ => serial r) rfl ?_ rfl executing
    (by simp only; omega) ordered.placed.reserved
  · simp [keyed]
  · split
    case isTrue same => exact same ▸ lined.toThreaded.registered_own distinct
    case isFalse other => exact lined.toThreaded.registered_keys distinct r other
  · rw [(lined.toThreaded.joined distinct).successors, if_neg]
    · simpa [allocate] using lined.cleared b i out
    · rintro ⟨id, -, tail⟩
      exact out (lined.linked.tail_mem tail).1
  · refine (places.append_right _).trans (perm_iff_count.mpr fun r => ?_)
    have counted := (lined.toThreaded.admit_waiting distinct).count_eq r
    change List.count r (_ ++ q.places ++ _) = _
    simp only [unfinished, count_append, count_cons] at counted ⊢
    omega

end

theorem Threaded.weaken (threaded : Threaded turns next line) : Threaded turns (next + 1) line := by
  refine { threaded with known := ?_, new := ?_, forward := ?_ }
  · intro r member
    rcases threaded.known r member with ⟨n, small, same⟩ | claim
    · exact .inl ⟨n, by omega, same⟩
    · exact .inr claim
  · exact fun n above => threaded.new n (by omega)
  · intro p r edge
    obtain ⟨n, small, rest⟩ := threaded.forward p r edge
    exact ⟨n, by omega, rest⟩

/-- A job without targets is accepted: a continuation, or the work of an Await, which takes
the place of its reservation. -/
theorem Ordered.enter (ordered : q.Ordered line) {after : DispatchQueue}
    (turns : after.turns = q.turns) (batches : after.batches = q.batches)
    (serials : after.serials = q.serials) (nextJob : after.nextJob = q.nextJob + 1)
    (history : after.history = .admitted q.nextJob [] :: q.history)
    (places : after.places.Perm (.job q.nextJob :: q.places))
    (executing : ∀ lane, (after.lanes lane).executing = (q.lanes lane).executing)
    (pending : after.pending - after.plans.length = q.pending - q.plans.length + 1)
    (reserved : after.awaitReserved = after.plans.length) : after.Ordered line := by
  have lined := ordered.lined
  have serial (r : Ref) : after.serial r = q.serial r := by cases r <;> simp [serial, serials]
  refine ordered.accept (.job q.nextJob) [] ?_ nextJob (.inl rfl) (by simp) (fun r => ?_) ?_ (by simp [batches])
    ?_ (fun r _ => serial r) rfl ?_ history executing pending reserved
  · rw [turns, nextJob]
    exact lined.toThreaded.weaken
  · rw [turns]
    split
    case isTrue same => exact same ▸ lined.new _ (Nat.le_refl _)
    case isFalse => rfl
  · rw [turns]
    exact lined.cleared
  · rw [batches]
    simpa using fun b => ordered.busy
  · rw [unfinished, turns]
    exact places.append_right _

theorem registerTryBatch_spec (q : DispatchQueue) (b : Nat) (lane : Lane) (items : List Int) :
    Enqueued
      { q with
        batches := update q.batches b { stage := .queued, lane, items }
        jobs := update q.jobs (.batch b) { lane }
        serials := update q.serials b q.nextJob
        nextJob := q.nextJob + 1
        pending := q.pending + 1
        history := .admitted q.nextJob [] :: q.history }
      [.batch b] (q.registerTryBatch b lane items) :=
  countedReady_spec _ lane _ rfl rfl

theorem Ordered.enterBatch (ordered : q.Ordered line) {b : Nat} (pooled : (q.batches b).stage = .pooled)
    (items : List Int) : (q.registerTryBatch b lane items).Ordered line := by
  have lined := ordered.lined
  have outside : Ref.batch b ∉ q.unfinished line := fun member => ordered.busy member pooled
  have unclaimed (i : Nat) : ((q.batches b).group i).claimed = false := by
    by_contra claimed
    exact outside (ordered.placed.holders b i (by simpa using claimed))
  obtain ⟨lanes, frame, places, executing⟩ := (registerTryBatch_spec q b lane items).lanes
  rw [frame]
  refine ordered.accept (.batch b) [] lined.toThreaded.weaken rfl (.inr ⟨rfl, b, rfl⟩) (by simp) (fun r => ?_)
    lined.cleared (fun b' i => ?_) (fun b' used => ?_) (fun r member => ?_) (by simp [serial])
    (places.append_right _) rfl executing (by simp only; omega) ordered.placed.reserved
  · split
    case isTrue same => exact same ▸ lined.new _ (Nat.le_refl _)
    case isFalse => rfl
  · by_cases fresh : b' = b
    · subst fresh
      simp [unclaimed]
    · simp [fresh]
  · by_cases fresh : b' = b
    · simp [fresh]
    · simpa [fresh] using ordered.busy (used.resolve_left (by simpa using fresh))
  · -- the object gets a new number; all others keep theirs
    cases r with
    | batch b' =>
      have other : b' ≠ b := fun same => outside (same ▸ member)
      simp [serial, other]
    | job n => rfl
    | claim b' i => rfl

end admission

section endings
variable {b : Nat}

theorem putDown_places (after : Bool) (member : r ∈ (q.lanes lane).executing) :
    (r :: (q.putDown lane r after).places).Perm q.places := by
  refine places_setLane [r] [] (perm_iff_count.mpr fun x => ?_)
  have erased := (perm_cons_erase member).count_eq x
  cases after <;>
    simp only [DispatchLane.items, count_append, count_cons, cons_append,
      nil_append, Bool.false_eq_true, if_false, if_true] at erased ⊢ <;>
    omega

theorem putDown_executing (other : Lane)
    (member : x ∈ ((q.putDown lane r after).lanes other).executing) :
    x ∈ (q.lanes other).executing := by
  by_cases same : other = lane
  · subst same
    have inside : x ∈ (q.lanes other).executing.erase r := by
      cases after <;> simpa [putDown, setLane] using member
    exact mem_of_mem_erase inside
  · simpa [putDown, setLane, same] using member

theorem putDown_others (other : Lane) (apart : x ≠ r) (member : x ∈ (q.lanes other).executing) :
    x ∈ ((q.putDown lane r after).lanes other).executing := by
  by_cases same : other = lane
  · subst same
    have kept : x ∈ (q.lanes other).executing.erase r := (mem_erase_of_ne apart).mpr member
    cases after <;> simpa [putDown, setLane] using kept
  · simpa [putDown, setLane, same] using member

theorem finishJobLocked_eq (q : DispatchQueue) (lane : Lane) (r : Ref) :
    ∃ lanes, q.finishJobLocked lane r =
        { q with
          lanes
          turns := (q.turns.release r).1
          pending := q.pending - 1
          history := .ended (q.serial r) :: q.history } ∧
      ({ q with lanes } : DispatchQueue).places.Perm ((q.turns.release r).2 ++ q.places) ∧
      ∀ lane, (lanes lane).executing = (q.lanes lane).executing := by
  generalize freed : (q.lanes lane).giveBack (q.jobs r).continuation = s
  have counts : s.items = (q.lanes lane).items ∧ s.executing = (q.lanes lane).executing := by
    rw [← freed, DispatchLane.giveBack]
    split <;> exact ⟨rfl, rfl⟩
  obtain ⟨lanes, frame, places, kept⟩ := ((counted_spec { q with turns := (q.turns.release r).1 } lane
    counts.1 counts.2).trans (releaseIDsLocked_spec (q.setLane lane s) r)).lanes
  rw [append_nil] at places
  simp only [finishJobLocked]
  rw [freed, frame]
  split
  · exact ⟨_, rfl, places, kept⟩
  · exact ⟨_, rfl, places, kept⟩

theorem endJob_eq (after : Bool) (member : r ∈ (q.lanes lane).executing) :
    ∃ lanes, (q.putDown lane r after).finishJobLocked lane r =
        { q with
          lanes
          turns := (q.turns.release r).1
          pending := q.pending - 1
          history := .ended (q.serial r) :: q.history } ∧
      (r :: ({ q with lanes } : DispatchQueue).places).Perm ((q.turns.release r).2 ++ q.places) ∧
      ∀ other, (lanes other).executing = ((q.putDown lane r after).lanes other).executing := by
  obtain ⟨lanes, frame, places, executing⟩ := finishJobLocked_eq (q.putDown lane r after) lane r
  refine ⟨lanes, frame, ?_, executing⟩
  have left := (putDown_places after member).append_left (q.turns.release r).2
  exact ((places.cons r).trans perm_middle.symm).trans left

section
variable (ordered : q.Ordered line)
include ordered

theorem Ordered.released (placed : r ∈ q.places) :
    Threaded (q.turns.release r).1 q.nextJob (line.erase r) ∧
      ((q.turns.release r).2 ++ (q.turns.release r).1.waiting (line.erase r)).Perm
        (q.turns.waiting line) := by
  have lined := ordered.lined
  by_cases member : r ∈ line
  · have clear := ordered.unblocked placed member
    exact ⟨lined.toThreaded.release member clear, lined.linked.release_waiting member clear⟩
  have unkeyed : q.turns.keys r = [] ∧ ∀ b i, r ≠ .claim b i := by
    rcases ordered.placed.known r (mem_append_left _ placed) with
      ⟨n, rfl, inside⟩ | ⟨b, rfl, -, -⟩
    · exact ⟨by_contra fun keyed => member (inside keyed), nofun⟩
    · exact ⟨lined.batchless b, nofun⟩
  rw [release_unkeyed unkeyed.1 (lined.keyless r unkeyed.1 unkeyed.2),
    erase_of_not_mem member]
  exact ⟨lined.toThreaded, .refl _⟩

/-- The item a worker has finished leaves the queue. A batch holds no claim any more. -/
theorem Ordered.finish (after : Bool) (member : r ∈ (q.lanes lane).executing)
    (unclaimed : ∀ b, r = .batch b → ∀ i, ((q.batches b).group i).claimed = false) :
    ((q.putDown lane r after).finishJobLocked lane r).Ordered (line.erase r) := by
  have lined := ordered.lined
  have inPlaces : r ∈ q.places := mem_places member
  have inside : r ∈ q.unfinished line := mem_append_left _ inPlaces
  have notClaim : ∀ b i, r ≠ .claim b i := by
    rcases ordered.placed.known r inside with ⟨n, rfl, -⟩ | ⟨b, rfl, -⟩
    · exact nofun
    · exact nofun
  have stays : ∀ {x}, x ∈ line.erase r ↔ x ≠ r ∧ x ∈ line := lined.linked.distinct.mem_erase_iff
  obtain ⟨threaded, waiting⟩ := ordered.released inPlaces
  obtain ⟨lanes, frame, places, executing⟩ := endJob_eq after member
  rw [frame]
  have jobs : (r :: (({ q with lanes } : DispatchQueue).places ++
      (q.turns.release r).1.waiting (line.erase r))).Perm (q.unfinished line) := by
    refine perm_iff_count.mpr fun x => ?_
    have first := places.count_eq x
    have second := waiting.count_eq x
    simp only [unfinished, count_append, count_cons] at first second ⊢
    omega
  have recorded := ordered.recorded.perm jobs
  obtain ⟨distinct, known, covered, holders, below, pending, reserved⟩ := ordered.placed.perm jobs
  rw [map_cons, nodup_cons] at distinct
  have other {x : Ref} (old : x ∈ ({ q with lanes } : DispatchQueue).places ++
      (q.turns.release r).1.waiting (line.erase r)) : x ≠ r :=
    fun same => distinct.1 (mem_map.mpr ⟨x, old, by rw [same]⟩)
  have small : q.serial r < q.nextJob := below r mem_cons_self
  refine ⟨⟨threaded, ?_, ?_, ?_⟩, ⟨distinct.2, ?_, ?_, ?_, ?_, ?_, reserved⟩, ⟨?_, ?_, ?_, ?_⟩, ?_⟩
  · grind [lined.claims]
  · simp only [release_keys]
    grind [lined.target]
  · simp only [release_successors]
    grind [lined.cleared]
  · intro x old
    simp only [release_keys]
    rcases known x (mem_cons_of_mem _ old) with ⟨n, rfl, keyed⟩ | batch
    · exact .inl ⟨n, rfl, fun holds => stays.mpr ⟨other old, keyed holds⟩⟩
    · exact .inr batch
  · intro n claim
    obtain ⟨apart, old⟩ := stays.mp claim
    exact (mem_cons.mp (covered n old)).resolve_left apart
  · intro b i claimed
    refine (mem_cons.mp (holders b i claimed)).resolve_left fun same => ?_
    simp [unclaimed b same.symm i] at claimed
  · exact fun x old => below x (mem_cons_of_mem _ old)
  · rw [length_cons] at pending
    change q.pending - 1 = ((({ q with lanes } : DispatchQueue).places ++
      (q.turns.release r).1.waiting (line.erase r)).length : Int) + q.plans.length
    omega
  · refine ⟨⟨ordered.started lane r member, fun ended => ?_⟩, recorded.orderly⟩
    exact ((recorded.ended _).mp ended).2 (mem_map_of_mem mem_cons_self)
  · intro n ids
    simpa [release_keys] using recorded.admitted n ids
  · intro n
    rw [mem_cons, QueueEvent.ended.injEq, recorded.ended, map_cons, mem_cons]
    constructor
    · rintro (rfl | ⟨below, outside⟩)
      · exact ⟨small, distinct.1⟩
      · exact ⟨below, fun old => outside (.inr old)⟩
    · rintro ⟨below, outside⟩
      by_cases same : n = q.serial r
      · exact .inl same
      · exact .inr ⟨below, fun either => either.elim same outside⟩
  · intro b id
    rw [held_ended, recorded.held, release_keys]
    grind
  · intro other x inside
    rw [executing other] at inside
    exact mem_cons_of_mem _ (ordered.started other x (putDown_executing other inside))

theorem Ordered.start (taken : (q.lanes lane).take lane = some (r, s))
    (awake : Nat) : ((q.setLane lane { s with awake, executing := r :: s.executing }).log
      (.started (q.serial r))).Ordered line := by
  obtain ⟨items, kept⟩ := DispatchLane.take_items taken
  have placed : r ∈ q.places := mem_places_of_items (items.mem_iff.mp mem_cons_self)
  have moved : (q.setLane lane { s with awake, executing := r :: s.executing }).places.Perm q.places := by
    refine places_setLane [] [] (List.Perm.trans ?_ items)
    exact perm_middle
  refine ordered.keep rfl { ordered.lined with } (moved.append_right _) (fun _ => .rfl) (fun _ => rfl)
    (fun b => ordered.busy) ordered.placed.holders ⟨ordered.permitted placed, ordered.recorded.orderly⟩
    (by simp [log, setLane]) (by simp [log, setLane]) ordered.recorded.held ?_
  · intro other x member
    by_cases same : other = lane
    · subst same
      have inside : x = r ∨ x ∈ (q.lanes other).executing := by
        simpa [log, setLane, kept] using member
      rcases inside with rfl | old
      · exact mem_cons_self
      · exact mem_cons_of_mem _ (ordered.started other x old)
    · have old : x ∈ (q.lanes other).executing := by simpa [log, setLane, same] using member
      exact mem_cons_of_mem _ (ordered.started other x old)

/-- An item goes from the hands of a worker to the ready items of a lane. -/
theorem Ordered.requeue (member : r ∈ (q.lanes lane).executing)
    {lanes : Lane → DispatchLane} {jobs : Ref → DispatchJob}
    (places : ({ q with lanes } : DispatchQueue).places.Perm (r :: (q.putDown lane r false).places))
    (executing : ∀ other, (lanes other).executing = ((q.putDown lane r false).lanes other).executing) :
    ({ q with lanes, jobs } : DispatchQueue).Ordered line := by
  refine ordered.lanes (places.trans (putDown_places false member)) fun other x inside => ?_
  rw [executing other] at inside
  exact ordered.started other x (putDown_executing other inside)

theorem Ordered.setBatch {batch : TryBatchJob}
    (same : ∀ i, (batch.group i).claimed = ((q.batches b).group i).claimed)
    (stage : batch.stage = (q.batches b).stage ∨ batch.stage ≠ .pooled) :
    (q.setBatch b batch).Ordered line := by
  have claims (b' i : Nat) : (((q.setBatch b batch).batches b').group i).claimed =
      ((q.batches b').group i).claimed := by grind [setBatch_batches]
  refine ordered.keep rfl { ordered.lined with claims := ?_ } (.refl _) (fun _ => .rfl) (fun _ => rfl)
    (fun b' member => ?_) (fun b i claimed => ordered.placed.holders b i (claims b i ▸ claimed))
    ordered.recorded.orderly (fun _ _ => .rfl) (fun _ => .rfl) ordered.recorded.held ordered.started
  · exact fun b i => by rw [ordered.lined.claims, claims]
  · have := ordered.busy member
    grind [setBatch_batches]

end

theorem Threaded.reset {turns : Turns Ref Int} (threaded : Threaded turns next line)
    (gone : Ref.claim b i ∉ line) : Threaded (turns.allocate (.claim b i) []) next line where
  linked := threaded.linked.allocate gone []
  known := threaded.known
  sorted := threaded.sorted
  new := fun n above => by simpa [allocate] using threaded.new n above
  batchless := fun b' => by simpa [allocate] using threaded.batchless b'
  keyless := by
    intro r keyless marker
    have old : turns.keys r = [] := by simpa [allocate, marker b i] using keyless
    simpa [allocate, marker b i] using threaded.keyless r old marker
  markers := by
    intro b' i'
    by_cases same : Ref.claim b' i' = .claim b i
    · simp [allocate, same]
    · simpa [allocate, same] using threaded.markers b' i'
  forward := by
    intro p r edge
    by_cases same : p = .claim b i
    · simp [allocate, same] at edge
    · exact threaded.forward p r (by simpa [allocate, same] using edge)

theorem recycled_turns {turns : Turns Ref Int} (threaded : Threaded turns next line)
    (gone : ∀ i, Ref.claim b i ∉ line) (positions : List Nat) :
    let cleaned := positions.foldl (fun turns i => turns.allocate (.claim b i) []) turns
    Threaded cleaned next line ∧
      (∀ r, (∀ i, r ≠ .claim b i) →
        cleaned.keys r = turns.keys r ∧ cleaned.successors r = turns.successors r) ∧
      (∀ i, turns.successors (.claim b i) = [] → cleaned.successors (.claim b i) = []) ∧
      cleaned.waiting line = turns.waiting line := by
  induction positions generalizing turns with
  | nil => exact ⟨threaded, fun _ _ => ⟨rfl, rfl⟩, fun _ => id, rfl⟩
  | cons i rest ih =>
    obtain ⟨after, others, own, waiting⟩ := ih (threaded.reset (gone i))
    refine ⟨after, fun r marker => ?_, fun i' clean => own i' ?_, waiting.trans ?_⟩
    · obtain ⟨keys, successors⟩ := others r marker
      rw [foldl_cons, keys, successors]
      simp [allocate, marker i]
    · by_cases same : i' = i
      · simp [allocate, same]
      · simpa [allocate, same] using clean
    · refine filter_congr fun r member => ?_
      have other : r ≠ .claim b i := fun same => gone i (same ▸ member)
      simp [allocate, other]

theorem Ordered.recycle (ordered : q.Ordered line) (left : .batch b ∉ q.unfinished line)
    (unclaimed : ∀ i, ((q.batches b).group i).claimed = false) : (q.recycle b).Ordered line := by
  have lined := ordered.lined
  have gone : ∀ i, Ref.claim b i ∉ line := by simp [lined.claims, unclaimed]
  obtain ⟨threaded, others, own, waiting⟩ :=
    recycled_turns lined.toThreaded gone (range tryBatchGroup)
  have other : ∀ b' i', Ref.claim b' i' ∈ line → ∀ i, Ref.claim b' i' ≠ .claim b i :=
    fun b' i' member i same => gone i (same ▸ member)
  refine ordered.keep rfl ⟨threaded, fun b' i => ?_, fun b' i member => ?_, fun b' i outside => ?_⟩
    (.of_eq (congrArg (q.places ++ ·) waiting)) (fun _ => .rfl) (fun n => (others (.job n) nofun).1)
    (fun b' member => ?_) (fun b' i claimed => ?_) ordered.recorded.orderly (fun _ _ => .rfl)
    (fun _ => .rfl) (fun b' id => ?_) ordered.started
  · by_cases same : b' = b
    · subst same
      simp [recycle, gone]
    · simpa [DispatchQueue.recycle, same] using lined.claims b' i
  · obtain ⟨id, only⟩ := lined.target b' i member
    exact ⟨id, (others _ (other b' i member)).1.trans only⟩
  · by_cases same : b' = b
    · subst same
      exact own i (lined.cleared b' i outside)
    · exact (others _ fun i' eq => same (by cases eq; rfl)).2.trans (lined.cleared b' i outside)
  · have apart : b' ≠ b := fun same => left (same ▸ member)
    simpa [DispatchQueue.recycle, apart] using ordered.busy member
  · by_cases same : b' = b
    · subst same
      simp [recycle] at claimed
    · exact ordered.placed.holders b' i (by simpa [DispatchQueue.recycle, same] using claimed)
  · refine (ordered.recorded.held b' id).trans
      (exists_congr fun i => and_congr_right fun member => ?_)
    exact iff_of_eq (congrArg (id ∈ ·) (others _ (other b' i member)).1.symm)

end endings

end DispatchQueue
end Roost.Nest
