import RoostCore.Nest.QueueMoves

/-! Runs of the dispatch queue. Every input keeps the line of registered jobs and claims in
order, whatever the loops over a group of targets do in between. -/
namespace Roost.Nest
open QueueEvent List Function

namespace DispatchQueue
variable {q after : DispatchQueue} {line : List Ref} {b i n : Nat} {lane : Lane}

theorem jobIDs_ne_nil (msg : DispatchMsg) : jobIDs msg ≠ [] := by
  have filled : dispatchIDs msg ≠ [] := by
    simp only [dispatchIDs]
    generalize (if msg.tid = 0 then [] else [msg.tid]) ++ msg.tids ++ msg.groupTIds.flatten = ids
    rw [Ne, destutter_eq_nil, ← length_eq_zero_iff, length_insertionSort]
    cases ids <;> simp
  unfold jobIDs
  split
  · simp
  · split
    · simp
    · exact filled
  · exact filled

/-- A claim is held only by a batch that a worker executes, for a target of its group. -/
def Grouped (q : DispatchQueue) : Prop :=
  ∀ b i, ((q.batches b).group i).claimed = true →
    i < (q.batches b).groupN ∧ ∃ lane, .batch b ∈ (q.lanes lane).executing

/-- A loop over the targets of a batch leaves the workers and the other batches alone. -/
structure Within (b : Nat) (q after : DispatchQueue) : Prop where
  executing : ∀ lane, (after.lanes lane).executing = (q.lanes lane).executing
  others : ∀ b', b' ≠ b → after.batches b' = q.batches b'
  stage : (after.batches b).stage = (q.batches b).stage

theorem Within.refl (b : Nat) (q : DispatchQueue) : Within b q q := ⟨fun _ => rfl, fun _ _ => rfl, rfl⟩

theorem Within.trans (first : Within b q after) (second : Within b after last) :
    Within b q last where
  executing := fun lane => (second.executing lane).trans (first.executing lane)
  others := fun b' other => (second.others b' other).trans (first.others b' other)
  stage := second.stage.trans first.stage

theorem setBatch_within {batch : TryBatchJob} (same : batch.stage = (q.batches b).stage) :
    Within b q (q.setBatch b batch) :=
  ⟨fun _ => rfl, by grind [setBatch_batches], by grind [setBatch_batches]⟩

theorem setPlan_within (plan : TryBatchPlan) : Within b q (q.setPlan b i plan) := setBatch_within rfl

theorem claimLocked_within {id : Int} : Within b q (q.claimLocked b i id) :=
  let claimed := setPlan_within (q := q) { claimed := true }
  ⟨fun _ => rfl, claimed.others, claimed.stage⟩

theorem registerLocked_batches (ids : List Int) :
    (q.registerLocked lane ids).batches = q.batches := by
  rw [(registerLocked_spec q lane ids).frame]

theorem registerLocked_within (ids : List Int) : Within b q (q.registerLocked lane ids) := by
  have batches : (q.registerLocked lane ids).batches = q.batches := registerLocked_batches ids
  exact ⟨(registerLocked_spec q lane ids).executing, fun b' _ => congrFun batches b',
    congrArg (fun batches => (batches b).stage) batches⟩

theorem convert_cases {id : Int} (ok : q.convertTryBatchTargetLocked b id = .ok after) :
    after = q.registerLocked (q.batches b).lane (jobIDs { tid := id }) ∧
      ∀ {line}, q.Ordered line → after.Ordered (line ++ [.job q.nextJob]) := by
  rw [convertTryBatchTargetLocked] at ok
  split at ok
  · cases ok
  split at ok
  · cases ok
  · exact ⟨admitLocked_ok ok,
      fun ordered => ordered.admitMsg (jobIDs_nodup _) (jobIDs_ne_nil _) ok⟩

theorem Ordered.replan (ordered : q.Ordered line) (plan : TryBatchPlan)
    (same : plan.claimed = ((q.batches b).group i).claimed) : (q.setPlan b i plan).Ordered line := by
  refine ordered.setBatch (fun i' => ?_) (.inl rfl)
  by_cases own : i' = i
  · simp [own, same]
  · simp [own]

/-- The claims of the batch are on positions before `n`. -/
def ClaimsBelow (q : DispatchQueue) (b n : Nat) : Prop :=
  ∀ i, ((q.batches b).group i).claimed = true → i < n

section
variable (below : q.ClaimsBelow b n)
include below

theorem ClaimsBelow.unclaimed : ((q.batches b).group n).claimed = false := by
  by_contra claimed
  exact Nat.lt_irrefl n (below n (by simpa using claimed))

theorem ClaimsBelow.setPlan (plan : TryBatchPlan)
    (free : plan.claimed = false) : (q.setPlan b n plan).ClaimsBelow b n := by
  intro i claimed
  rw [setPlan_group] at claimed
  split at claimed
  · simp [free] at claimed
  · exact below i claimed

theorem ClaimsBelow.succ : q.ClaimsBelow b (n + 1) :=
  fun i claimed => Nat.lt_succ_of_lt (below i claimed)

theorem ClaimsBelow.claim (id : Int) :
    (q.claimLocked b n id).ClaimsBelow b (n + 1) := by
  intro i claimed
  rw [claimLocked_group] at claimed
  split at claimed
  case isTrue own => omega
  case isFalse => exact Nat.lt_succ_of_lt (below i claimed)

end

/-- Arranging a group keeps the order; its claims lie inside the group. -/
theorem prepareTargets_spec (targets : List Int) (ordered : q.Ordered line)
    (held : .batch b ∈ (q.lanes lane).executing) (below : q.ClaimsBelow b n) :
    ∃ line', (q.prepareTargets b n targets).Ordered line' ∧ Within b q (q.prepareTargets b n targets) ∧
      (q.prepareTargets b n targets).ClaimsBelow b ((q.prepareTargets b n targets).batches b).groupN := by
  -- the position that ends the group becomes its size
  have closed : ∀ {q : DispatchQueue} {line n}, q.Ordered line → q.ClaimsBelow b n →
      ∃ line', (q.setGroupN b n).Ordered line' ∧ Within b q (q.setGroupN b n) ∧
        (q.setGroupN b n).ClaimsBelow b ((q.setGroupN b n).batches b).groupN := by
    intro q line n ordered below
    refine ⟨line, ordered.setBatch (fun _ => rfl) (.inl rfl), setBatch_within rfl, fun i claimed => ?_⟩
    simp only [setGroupN, setBatch, update_self] at claimed ⊢
    exact below i claimed
  induction targets generalizing q line n with
  | nil =>
    exact closed ordered below
  | cons id rest ih =>
    -- the next position after a step that leaves the workers alone
    have onward : ∀ {after : DispatchQueue} {line}, Within b q after → after.Ordered line →
        after.ClaimsBelow b (n + 1) →
        ∃ line', (after.prepareTargets b (n + 1) rest).Ordered line' ∧
          Within b q (after.prepareTargets b (n + 1) rest) ∧
          (after.prepareTargets b (n + 1) rest).ClaimsBelow b
            ((after.prepareTargets b (n + 1) rest).batches b).groupN := by
      intro after line within ordered below
      obtain ⟨line', ordered, later, below⟩ := ih ordered (within.executing lane ▸ held) below
      exact ⟨line', ordered, within.trans later, below⟩
    have replanned : ∀ plan : TryBatchPlan, plan.claimed = false → (q.setPlan b n plan).Ordered line :=
      fun plan free => ordered.replan plan (free.trans below.unclaimed.symm)
    rw [prepareTargets]
    split
    case isTrue => exact onward (setPlan_within _) (replanned _ rfl) (below.setPlan _ rfl).succ
    case isFalse =>
      split
      case h_1 free =>
        refine onward ((setPlan_within {}).trans claimLocked_within)
          ((replanned {} rfl).claim free ?_ ?_) ((below.setPlan {} rfl).claim id)
        · exact (below.setPlan {} rfl).unclaimed
        · exact mem_append_left _ (mem_places held : Ref.batch b ∈ q.places)
      case h_2 tail found =>
        split
        case isTrue =>
          obtain ⟨line', ordered, within, below⟩ := closed (replanned {} rfl) (below.setPlan {} rfl)
          exact ⟨line', ordered, (setPlan_within {}).trans within, below⟩
        case isFalse =>
          split
          case h_1 after ok =>
            obtain ⟨same, admitted⟩ := convert_cases ok
            have batches : after.batches = q.batches := same ▸ registerLocked_batches _
            have within : Within b q after := same ▸ registerLocked_within _
            have kept : after.ClaimsBelow b n := fun i claimed => below i (batches ▸ claimed)
            refine onward (within.trans (setPlan_within _)) ((admitted ordered).replan _ ?_)
              (kept.setPlan _ rfl).succ
            exact kept.unclaimed.symm
          case h_2 => exact onward (setPlan_within _) (replanned _ rfl) (below.setPlan _ rfl).succ

/-- What a step on the current group of a batch keeps besides: its size, and its claims
except those on the given positions. -/
structure InGroup (b : Nat) (gone : List Nat) (q after : DispatchQueue) : Prop
    extends Within b q after where
  size : (after.batches b).groupN = (q.batches b).groupN
  claims : ∀ i, ((after.batches b).group i).claimed = true ↔
    ((q.batches b).group i).claimed = true ∧ i ∉ gone

theorem InGroup.trans (first : InGroup b gone q after) (second : InGroup b more after last) :
    InGroup b (gone ++ more) q last where
  toWithin := first.toWithin.trans second.toWithin
  size := second.size.trans first.size
  claims := by
    intro i
    rw [second.claims, first.claims, mem_append, not_or, and_assoc]

theorem InGroup.refl (b : Nat) (q : DispatchQueue) : InGroup b [] q q :=
  ⟨.refl b q, rfl, fun i => by simp⟩

theorem setPlan_size (plan : TryBatchPlan) :
    ((q.setPlan b i plan).batches b).groupN = (q.batches b).groupN := by
  simp [setPlan, setBatch]

theorem replan_inGroup (same : plan.claimed = ((q.batches b).group i).claimed) :
    InGroup b [] q (q.setPlan b i plan) where
  toWithin := setPlan_within plan
  size := setPlan_size plan
  claims := by
    intro i'
    rw [setPlan_group]
    by_cases own : i' = i
    · subst own
      simp [same]
    · simp [own]

theorem convertBusy_spec (start : Nat) (ordered : q.Ordered line) :
    (∃ line', (convertBusyLocked b start q i).Ordered line') ∧
      InGroup b [] q (convertBusyLocked b start q i) := by
  rw [convertBusyLocked]
  split
  case isFalse => exact ⟨⟨line, ordered⟩, .refl b q⟩
  case isTrue =>
    split
    case h_2 => exact ⟨⟨line, ordered⟩, .refl b q⟩
    case h_1 id _ =>
      split
      case h_1 after ok =>
        obtain ⟨same, admitted⟩ := convert_cases ok
        have batches : after.batches = q.batches := same ▸ registerLocked_batches _
        refine ⟨⟨_, admitted ordered⟩, same ▸ registerLocked_within _, ?_, fun i => ?_⟩
        · rw [batches]
        · simp [batches]
      case h_2 => exact ⟨⟨line, ordered.replan _ rfl⟩, replan_inGroup rfl⟩

theorem convertBusy_fold (start : Nat) (positions : List Nat) (ordered : q.Ordered line) :
    (∃ line', (positions.foldl (convertBusyLocked b start) q).Ordered line') ∧
      InGroup b [] q (positions.foldl (convertBusyLocked b start) q) := by
  induction positions generalizing q line with
  | nil => exact ⟨⟨line, ordered⟩, .refl b q⟩
  | cons i rest ih =>
    obtain ⟨⟨line', ordered'⟩, first⟩ := convertBusy_spec (b := b) (i := i) start ordered
    obtain ⟨found, second⟩ := ih ordered'
    exact ⟨found, first.trans second⟩

theorem releaseClaim_inGroup (ordered : q.Ordered line) : InGroup b [i] q (releaseClaimLocked b q i) := by
  by_cases claimed : ((q.batches b).group i).claimed = true
  · obtain ⟨id, only⟩ := ordered.lined.target b i ((ordered.lined.claims b i).mpr claimed)
    obtain ⟨lanes, frame, -, executing⟩ := releaseClaimLocked_eq claimed only
    rw [frame]
    refine ⟨⟨executing, fun b' other => ?_, setPlan_stage _ b⟩, setPlan_size _, fun i' => ?_⟩
    · simp [setPlan, setBatch, other]
    · rw [setPlan_group]
      by_cases own : i' = i
      · simp [own]
      · simp [own]
  · rw [releaseClaimLocked, if_neg claimed]
    refine ⟨.refl b q, rfl, fun i' => ?_⟩
    have other : ((q.batches b).group i').claimed = true → i' ≠ i := by
      rintro found rfl
      exact claimed found
    simpa using other

theorem releaseClaims_fold (positions : List Nat) (ordered : q.Ordered line) :
    (∃ line', (positions.foldl (releaseClaimLocked b) q).Ordered line') ∧
      InGroup b positions q (positions.foldl (releaseClaimLocked b) q) := by
  induction positions generalizing q line with
  | nil => exact ⟨⟨line, ordered⟩, .refl b q⟩
  | cons i rest ih =>
    obtain ⟨found, later⟩ := ih (ordered.releaseClaim (b := b) (i := i))
    exact ⟨found, (releaseClaim_inGroup ordered).trans later⟩

theorem releaseTryBatchClaims_spec (ordered : q.Ordered line)
    (below : q.ClaimsBelow b (q.batches b).groupN) :
    (∃ line', (q.releaseTryBatchClaimsLocked b).Ordered line') ∧
      Within b q (q.releaseTryBatchClaimsLocked b) ∧
      ∀ i, (((q.releaseTryBatchClaimsLocked b).batches b).group i).claimed = false := by
  obtain ⟨found, inGroup⟩ := releaseClaims_fold (b := b) (range (q.batches b).groupN) ordered
  refine ⟨found, inGroup.toWithin, fun i => ?_⟩
  by_contra claimed
  obtain ⟨old, outside⟩ := (inGroup.claims i).mp (Bool.eq_true_of_not_eq_false claimed)
  exact outside (mem_range.mpr (below i old))

theorem finishTryBatchGroup_spec (start : Nat) (ordered : q.Ordered line)
    (below : q.ClaimsBelow b (q.batches b).groupN) :
    (∃ line', (q.finishTryBatchGroupLocked b start).Ordered line') ∧
      Within b q (q.finishTryBatchGroupLocked b start) ∧
      ∀ i, (((q.finishTryBatchGroupLocked b start).batches b).group i).claimed = false := by
  obtain ⟨⟨line', ordered'⟩, first⟩ :=
    convertBusy_fold (b := b) start (range (q.batches b).groupN) ordered
  have below' : ClaimsBelow ((range (q.batches b).groupN).foldl (convertBusyLocked b start) q) b
      (((range (q.batches b).groupN).foldl (convertBusyLocked b start) q).batches b).groupN := by
    intro i claimed
    rw [first.size]
    exact below i ((first.claims i).mp claimed).1
  obtain ⟨found, second, none⟩ := releaseTryBatchClaims_spec ordered' below'
  exact ⟨found, first.toWithin.trans second, none⟩

def Sound (q : DispatchQueue) : Prop := (∃ line, q.Ordered line) ∧ q.Grouped

theorem Grouped.keep (grouped : q.Grouped) (same : after.batches = q.batches)
    (executing : ∀ lane b, .batch b ∈ (q.lanes lane).executing → .batch b ∈ (after.lanes lane).executing) :
    after.Grouped := by
  intro b i claimed
  rw [same] at claimed ⊢
  obtain ⟨below, lane, held⟩ := grouped b i claimed
  exact ⟨below, lane, executing lane b held⟩

theorem Grouped.below (grouped : q.Grouped) (b : Nat) : q.ClaimsBelow b (q.batches b).groupN :=
  fun i claimed => (grouped b i claimed).1

/-- Only one batch changed, and its claims are where they should be. -/
theorem Grouped.within (grouped : q.Grouped)
    (executing : ∀ lane, (after.lanes lane).executing = (q.lanes lane).executing)
    (others : ∀ b', b' ≠ b → after.batches b' = q.batches b')
    (own : ∀ i, ((after.batches b).group i).claimed = true →
      i < (after.batches b).groupN ∧ ∃ lane, .batch b ∈ (after.lanes lane).executing) :
    after.Grouped := by
  intro b' i claimed
  by_cases same : b' = b
  · subst same
    exact own i claimed
  · rw [others b' same] at claimed ⊢
    obtain ⟨below, lane, held⟩ := grouped b' i claimed
    exact ⟨below, lane, (executing lane).symm ▸ held⟩

theorem start_sound (sound : q.Sound) : q.start.Sound := by
  refine keeps_unless sound fun _ => ?_
  obtain ⟨⟨line, ordered⟩, grouped⟩ := sound
  exact ⟨⟨line, ordered.lanes (.refl _) ordered.started⟩, grouped⟩

theorem admitMsg_sound (long : Int → Bool) (msg : DispatchMsg) (prepareIo : Bool) (sound : q.Sound) :
    (q.accepted (q.admitMsg long msg prepareIo)).Sound := by
  obtain ⟨⟨line, ordered⟩, grouped⟩ := sound
  cases result : q.admitMsg long msg prepareIo with
  | error reason => exact ⟨⟨line, ordered⟩, grouped⟩
  | ok after =>
    rw [admitMsg] at result
    split at result
    · cases result
    refine ⟨⟨_, ordered.admitMsg (jobIDs_nodup _) (jobIDs_ne_nil _) result⟩, ?_⟩
    change after.Grouped
    rw [admitLocked_ok result]
    refine grouped.keep (registerLocked_batches _) fun other b held => ?_
    rw [(registerLocked_within (b := b) _).executing other]
    exact held

theorem admitTryBatch_sound (items : List Int) (pooled : (q.batches b).stage = .pooled)
    (sound : q.Sound) : (q.accepted (q.admitTryBatch b lane items)).Sound := by
  obtain ⟨⟨line, ordered⟩, grouped⟩ := sound
  cases result : q.admitTryBatch b lane items with
  | error reason => exact ⟨⟨line, ordered⟩, grouped⟩
  | ok after =>
    have same := admitTryBatch_ok result
    refine ⟨⟨line, same ▸ ordered.enterBatch pooled items⟩, ?_⟩
    obtain ⟨lanes, frame, -, executing⟩ := (registerTryBatch_spec q b lane items).lanes
    change after.Grouped
    rw [same, frame]
    refine grouped.within (b := b) executing (fun b' other => by simp [other]) fun i claimed => ?_
    simp at claimed

theorem pushContinuation_sound (sound : q.Sound) : (q.pushContinuationLocked lane).Sound := by
  obtain ⟨⟨line, ordered⟩, grouped⟩ := sound
  have executing : ∀ other, ((q.pushContinuationLocked lane).lanes other).executing =
      (q.lanes other).executing := setLane_executing _ lane (by simp)
  refine ⟨⟨line, ordered.enter rfl rfl rfl rfl rfl ?_ executing ?_ ordered.placed.reserved⟩,
    grouped.keep rfl fun other b held => (executing other).symm ▸ held⟩
  · refine places_setLane [] [.job q.nextJob] (perm_iff_count.mpr fun r => ?_)
    rw [DispatchLane.signal_items]
    simp only [DispatchLane.items, count_append, nil_append, cons_append, count_cons,
      count_nil]
    omega
  · simp only [pushContinuationLocked, setLane]
    omega

/-- The reservations change, and the counters with them. -/
theorem Sound.replan (sound : q.Sound) {p : Int} {l : List Nat}
    (added : p = q.pending + (l.length - q.plans.length : Int)) (next : Nat) :
    ({ q with awaitReserved := l.length, pending := p, plans := l, nextPlan := next } : DispatchQueue).Sound := by
  obtain ⟨⟨line, ordered⟩, grouped⟩ := sound
  refine ⟨⟨line, { ordered.lined with }, { ordered.placed with pending := ?_, reserved := rfl },
    { ordered.recorded with }, ordered.started⟩, grouped⟩
  have := ordered.placed.pending
  change p = ((q.unfinished line).length : Int) + l.length
  omega

theorem reserveAwait_sound (sound : q.Sound) : (q.accepted q.reserveAwait).Sound := by
  cases result : q.reserveAwait with
  | error reason => exact sound
  | ok after =>
    simp only [reserveAwait] at result
    split at result
    · cases result
    split at result
    · cases result
    cases result
    have reserved : q.awaitReserved + 1 = ((q.nextPlan :: q.plans).length : Int) := by
      simp [sound.1.choose_spec.placed.reserved]
    have planned := sound.replan (p := q.pending + 1) (l := q.nextPlan :: q.plans) (by rw [length_cons]; omega)
      (q.nextPlan + 1)
    rwa [← reserved] at planned

theorem broadcastAll_sound (sound : q.Sound) : q.broadcastAll.Sound := by
  obtain ⟨⟨line, ordered⟩, grouped⟩ := sound
  exact ⟨⟨line, ordered.lanes (.refl _) ordered.started⟩, grouped⟩

theorem erase_length (member : plan ∈ q.plans) :
    (((q.plans.erase plan).length : Nat) : Int) = q.plans.length - 1 := by
  have positive : 0 < q.plans.length := length_pos_of_mem member
  rw [length_erase_of_mem member]
  omega

theorem cancelAwait_sound (member : plan ∈ q.plans) (sound : q.Sound) :
    (q.cancelAwait plan).Sound := by
  have length := erase_length member
  have reserved : q.awaitReserved - 1 = ((q.plans.erase plan).length : Int) := by
    rw [length, sound.1.choose_spec.placed.reserved]
  have freed := sound.replan (p := q.pending - 1) (l := q.plans.erase plan) (by omega) q.nextPlan
  rw [← reserved] at freed
  exact keeps_if freed fun _ => broadcastAll_sound freed

theorem startAwait_sound (member : plan ∈ q.plans) (sound : q.Sound) :
    (q.startAwait plan).Sound := by
  obtain ⟨⟨line, ordered⟩, grouped⟩ := sound
  have length := erase_length member
  have spec : Enqueued
      { q with
        awaitReserved := q.awaitReserved - 1
        jobs := update q.jobs (.job q.nextJob) { lane := .io }
        nextJob := q.nextJob + 1
        plans := q.plans.erase plan
        history := .admitted q.nextJob [] :: q.history }
      [.job q.nextJob] (q.startAwait plan) := countedReady_spec _ .io _ rfl rfl
  refine ⟨⟨line, ordered.enter rfl rfl rfl rfl rfl spec.places spec.executing ?_ ?_⟩,
    grouped.keep rfl fun other b held => (spec.executing other).symm ▸ held⟩
  · change q.pending - ((q.plans.erase plan).length : Int) = q.pending - q.plans.length + 1
    omega
  · have := ordered.placed.reserved
    change q.awaitReserved - 1 = ((q.plans.erase plan).length : Int)
    omega

theorem acted_sound (items : s.items = (q.lanes lane).items)
    (executing : s.executing = (q.lanes lane).executing) (sound : q.Sound) :
    (q.setLane lane s).Sound := by
  obtain ⟨⟨line, ordered⟩, grouped⟩ := sound
  have counted := counted_spec q lane items executing
  exact ⟨⟨line, ordered.lanes counted.places fun other r member =>
    ordered.started other r (counted.executing other ▸ member)⟩,
    grouped.keep rfl fun other b held => (counted.executing other).symm ▸ held⟩

theorem prepare_sound (lane : Lane) (sound : q.Sound) (held : .batch b ∈ (q.lanes lane).executing)
    (none : ∀ i, ((q.batches b).group i).claimed = false) : (q.prepareTryBatchGroupLocked b).Sound := by
  obtain ⟨⟨line, ordered⟩, grouped⟩ := sound
  obtain ⟨line', ordered', within, below⟩ := prepareTargets_spec
    (((q.batches b).items.drop (q.batches b).next).take tryBatchGroup) ordered held
    (n := 0) fun i claimed => by simp [none i] at claimed
  exact ⟨⟨line', ordered'⟩, grouped.within within.executing within.others fun i claimed =>
    ⟨below i claimed, lane, (within.executing lane).symm ▸ held⟩⟩

theorem setStage_group (stage : TryBatchStage) (b' : Nat) :
    ((q.setStage b stage).batches b').group = (q.batches b').group ∧
      ((q.setStage b stage).batches b').groupN = (q.batches b').groupN := by
  grind [setStage, setBatch_batches]

theorem restage_sound (stage : TryBatchStage) (used : stage ≠ .pooled) (sound : q.Sound) :
    (q.setStage b stage).Sound := by
  obtain ⟨⟨line, ordered⟩, grouped⟩ := sound
  refine ⟨⟨line, ordered.setBatch (fun _ => rfl) (.inr used)⟩, fun b' i claimed => ?_⟩
  rw [(setStage_group stage b').1] at claimed
  rw [(setStage_group stage b').2]
  exact grouped b' i claimed

theorem Ordered.take_fresh (ordered : q.Ordered line)
    (taken : (q.lanes lane).take lane = some (r, s)) (other : Lane) :
    r ∉ (q.lanes other).executing := by
  obtain ⟨items, kept⟩ := DispatchLane.take_items taken
  have perm : (r :: (q.setLane lane s).places).Perm q.places := places_setLane [r] [] items
  have distinct : q.places.Nodup := by
    have all := List.Nodup.of_map _ ordered.placed.distinct
    exact (nodup_append.mp all).1
  have apart := (nodup_cons.mp (perm.nodup_iff.mpr distinct)).1
  intro held
  rw [← setLane_executing q lane kept other] at held
  exact apart (mem_places held)

theorem work_sound (sound : q.Sound) : (q.work lane).Sound := by
  obtain ⟨⟨line, ordered⟩, grouped⟩ := sound
  simp only [work]
  split
  case isTrue => exact ⟨⟨line, ordered⟩, grouped⟩
  case isFalse =>
    split
    case h_2 =>
      split
      · exact acted_sound rfl rfl ⟨⟨line, ordered⟩, grouped⟩
      · exact acted_sound rfl rfl ⟨⟨line, ordered⟩, grouped⟩
    case h_1 r s taken =>
      have started := ordered.start taken (s.awake - 1)
      have onward : ∀ other b, .batch b ∈ (q.lanes other).executing →
          .batch b ∈ ((q.setLane lane { s with awake := s.awake - 1, executing := r :: s.executing }).lanes
            other).executing := by
        intro other b held
        by_cases same : other = lane
        · subst same
          have kept := (DispatchLane.take_items taken).2
          simpa [setLane, kept] using .inr held
        · simpa [setLane, same] using held
      split
      case h_2 => exact ⟨⟨line, started⟩, grouped.keep rfl onward⟩
      case h_1 b =>
        have fresh : ∀ i, ((q.batches b).group i).claimed = false := by
          intro i
          by_contra claimed
          obtain ⟨-, other, held⟩ := grouped b i (Bool.eq_true_of_not_eq_false claimed)
          exact ordered.take_fresh taken other held
        have running := restage_sound (b := b) .running (by simp)
          ⟨⟨line, started⟩, grouped.keep rfl onward⟩
        refine prepare_sound lane running ?_ fun i => ?_
        · change _ ∈ ((q.setLane lane _).lanes lane).executing
          simp [setLane]
        · rw [(setStage_group .running b).1]
          exact fresh i

theorem rerouteToIO_spec (q : DispatchQueue) (r : Ref) : Enqueued
    { q with jobs := update q.jobs r { q.jobs r with lane := .io } } [r] (q.rerouteToIo r) := by
  have freed := counted_spec { q with jobs := update q.jobs r { q.jobs r with lane := .io } }
    (q.jobs r).lane (s := { q.lanes (q.jobs r).lane with
      running := (q.lanes (q.jobs r).lane).running - 1 }) rfl rfl
  have ready : Enqueued _ [r] (q.rerouteToIo r) := countedReady_spec (DispatchQueue.setLane
    { q with jobs := update q.jobs r { q.jobs r with lane := .io } } _ _) .io r rfl rfl
  exact freed.trans ready

theorem ran_sound (reroute after : Bool) (member : r ∈ (q.lanes lane).executing)
    (ordinary : isBatch r = false) (sound : q.Sound) : (q.ran lane r reroute after).Sound := by
  obtain ⟨⟨line, ordered⟩, grouped⟩ := sound
  have notBatch : ∀ b, Ref.batch b ≠ r := by
    rintro b rfl
    simp [isBatch] at ordinary
  rw [ran]
  split
  case isTrue =>
    obtain ⟨lanes, frame, places, executing⟩ := (rerouteToIO_spec (q.putDown lane r false) r).lanes
    rw [frame]
    refine ⟨⟨line, ordered.requeue member places executing⟩, grouped.keep rfl fun other b held => ?_⟩
    exact (executing other).symm ▸ putDown_others other (notBatch b) held
  case isFalse =>
    refine ⟨⟨_, ordered.finish after member fun b same => absurd same.symm (notBatch b)⟩, ?_⟩
    obtain ⟨lanes, frame, -, executing⟩ := endJob_eq after member
    rw [frame]
    refine grouped.keep rfl fun other b held => ?_
    exact (executing other).symm ▸ putDown_others other (notBatch b) held

/-- The claims are withdrawn; the batch is still in the hands of its worker. -/
theorem releaseTryBatchClaims_sound (sound : q.Sound) :
    (q.releaseTryBatchClaimsLocked b).Sound ∧ Within b q (q.releaseTryBatchClaimsLocked b) ∧
      ∀ i, (((q.releaseTryBatchClaimsLocked b).batches b).group i).claimed = false := by
  obtain ⟨⟨line, ordered⟩, grouped⟩ := sound
  obtain ⟨found, within, none⟩ := releaseTryBatchClaims_spec ordered (grouped.below b)
  refine ⟨⟨found, grouped.within within.executing within.others fun i claimed => ?_⟩, within, none⟩
  simp [none i] at claimed

theorem groupDone_sound (outcome : Nat → TargetOutcome) (slice : Bool)
    (held : .batch b ∈ (q.lanes lane).executing) (sound : q.Sound) :
    (q.groupDone b outcome slice).Sound := by
  obtain ⟨⟨line, ordered⟩, grouped⟩ := sound
  have claims : ∀ i, ((executeGroup (q.batches b) outcome).group i).claimed =
      ((q.batches b).group i).claimed := by
    intro i
    simp only [executeGroup]
    split
    · cases outcome i <;> rfl
    · rfl
  have ordered' : (q.setBatch b (executeGroup (q.batches b) outcome)).Ordered line :=
    ordered.setBatch claims (.inl rfl)
  have below : (q.setBatch b (executeGroup (q.batches b) outcome)).ClaimsBelow b
      ((q.setBatch b (executeGroup (q.batches b) outcome)).batches b).groupN := by
    intro i claimed
    simp only [setBatch, update_self, claims] at claimed ⊢
    exact (grouped b i claimed).1
  obtain ⟨found, within, none⟩ := finishTryBatchGroup_spec (q.batches b).next ordered' below
  have settled : ((q.setBatch b (executeGroup (q.batches b) outcome)).finishTryBatchGroupLocked b
      (q.batches b).next).Sound := by
    refine ⟨found, grouped.within (b := b) within.executing (fun b' other => ?_) fun i claimed => ?_⟩
    · rw [within.others b' other]
      simp [setBatch, other]
    · simp [none i] at claimed
  simp only [groupDone]
  split
  · exact restage_sound _ (by simp) settled
  split
  · exact restage_sound _ (by simp) settled
  refine prepare_sound lane settled ?_ none
  rw [within.executing lane]
  exact held

theorem leaveTryBatch_sound (yield : Bool) (held : .batch b ∈ (q.lanes lane).executing)
    (sound : q.Sound) : (q.leaveTryBatchLocked lane b yield).Sound := by
  obtain ⟨⟨⟨line, ordered⟩, grouped⟩, within, none⟩ := releaseTryBatchClaims_sound (b := b) sound
  have member : .batch b ∈ ((q.releaseTryBatchClaimsLocked b).lanes lane).executing :=
    (within.executing lane).symm ▸ held
  simp only [leaveTryBatchLocked]
  generalize q.releaseTryBatchClaimsLocked b = q at *
  -- a batch that holds a claim is another one, and stays in its worker's hands
  have others : ∀ lanes : Lane → DispatchLane,
      (∀ other, (lanes other).executing = ((q.putDown lane (.batch b) false).lanes other).executing) →
      ({ q with lanes } : DispatchQueue).Grouped := by
    intro lanes executing b' i claimed
    obtain ⟨below, other, held⟩ := grouped b' i claimed
    have apart : Ref.batch b' ≠ .batch b := by
      rintro same
      cases same
      simp [none i] at claimed
    exact ⟨below, other, (executing other).symm ▸ putDown_others other apart held⟩
  split
  case isTrue =>
    have spec : Enqueued (q.putDown lane (.batch b) false) [.batch b]
      (DispatchQueue.yieldTryBatchLocked _ lane (.batch b)) := countedReady_spec _ lane _ rfl rfl
    obtain ⟨lanes, frame, places, executing⟩ := spec.lanes
    rw [frame]
    exact restage_sound _ nofun ⟨⟨line, ordered.requeue member places executing⟩, others lanes executing⟩
  case isFalse =>
    have finished := ordered.finish false member fun b' same i => by
      cases same
      exact none i
    obtain ⟨lanes, frame, places, executing⟩ := endJob_eq false member
    rw [frame] at finished ⊢
    have left : Ref.batch b ∉ DispatchQueue.unfinished
        { q with
          lanes
          turns := (q.turns.release (.batch b)).1
          pending := q.pending - 1
          history := .ended (q.serial (.batch b)) :: q.history } (line.erase (.batch b)) := by
      intro inside
      have ended := (finished.recorded.ended (q.serial (.batch b))).mp mem_cons_self
      exact ended.2 (mem_map_of_mem inside)
    refine ⟨⟨_, finished.recycle left none⟩, ?_⟩
    intro b' i claimed
    by_cases same : b' = b
    · subst same
      simp [recycle] at claimed
    · have old : ((q.batches b').group i).claimed = true := by simpa [recycle, same] using claimed
      obtain ⟨below, kept⟩ := others lanes executing b' i old
      exact ⟨by simpa [recycle, same] using below, kept⟩

theorem stop_sound (sound : q.Sound) : q.stop.Sound := by
  refine keeps_unless sound fun _ => broadcastAll_sound ?_
  obtain ⟨⟨line, ordered⟩, grouped⟩ := sound
  exact ⟨⟨line, ordered.lanes (.refl _) ordered.started⟩, grouped⟩

theorem step_sound (long : Int → Bool) (q : DispatchQueue) (input : Input) (sound : q.Sound) :
    (q.step long input).Sound := by
  cases input with
  | start => exact start_sound sound
  | admitMsg msg prepareIo => exact admitMsg_sound long msg prepareIo sound
  | admitTryBatch b isLong items =>
    exact keeps_if sound fun pooled => admitTryBatch_sound items pooled sound
  | continueBusiness parent msg => exact keeps_if sound fun _ => pushContinuation_sound sound
  | tryContinueBusiness msg => exact keeps_unless sound fun _ => pushContinuation_sound sound
  | reserveAwait => exact reserveAwait_sound sound
  | cancelAwait plan => exact keeps_if sound fun member => cancelAwait_sound member sound
  | startAwait plan => exact keeps_if sound fun member => startAwait_sound member sound
  | work lane => exact work_sound sound
  | ran lane r reroute after =>
    exact keeps_if sound fun held => ran_sound reroute after held.1 held.2 sound
  | acted lane => exact keeps_unless sound fun _ => acted_sound rfl rfl sound
  | groupDone lane b outcome slice =>
    exact keeps_if sound fun held => groupDone_sound outcome slice held.1 sound
  | leave lane b =>
    refine keeps_if sound fun held => ?_
    split
    · exact leaveTryBatch_sound false held sound
    · exact leaveTryBatch_sound _ held sound
    · exact sound
  | fence =>
    obtain ⟨⟨line, ordered⟩, grouped⟩ := sound
    exact ⟨⟨line, ordered.lanes (.refl _) ordered.started⟩, grouped⟩
  | stop => exact stop_sound sound

theorem init_sound (config : Lane → WorkerPoolConfig) : (init config).Sound := by
  refine ⟨⟨[], ?_, ?_, ?_, ?_⟩, fun b i claimed => by simp [init] at claimed⟩
  · exact ⟨⟨Turns.empty_linked, nofun, .nil, fun _ _ => rfl, fun _ => rfl, fun _ _ _ => rfl,
      fun _ _ => rfl, nofun⟩, fun b i => by simp [init], nofun, fun _ _ _ => rfl⟩
  · have none : (init config).unfinished [] = [] := rfl
    exact ⟨.nil, nofun, nofun, fun b i claimed => by simp [init] at claimed, nofun, rfl, rfl⟩
  · have none : (init config).unfinished [] = [] := rfl
    exact ⟨trivial, fun n ids => by simp [init], fun n => by simp [init], fun b id => by simp [init, Held]⟩
  · exact fun lane r member => by simp [init] at member

theorem run_sound (long : Int → Bool) (config : Lane → WorkerPoolConfig) (inputs : List Input) :
    (run (step long) (init config) inputs).Sound :=
  invariant (step_sound long) (init_sound config) inputs

end DispatchQueue
end Roost.Nest
