import RoostCore.Saga.Rounds

/-! What a round leaves in the partition: the input watermark, the committed sagas
after an installation, and what a prune keeps. -/
namespace Roost.Saga
open Go Round Partition

section watermark
variable (o : Options) (registry : Registry) (p : Partition) (r : Round)

@[simp] theorem Round.verdict_maxIn (v : PendingVerdict) : (r.verdict v).maxIn = r.maxIn := by
  unfold verdict
  split <;> rfl

@[simp] theorem Round.count_maxIn (change : PartitionCounts → PartitionCounts) :
    (r.count change).maxIn = r.maxIn := rfl

@[simp] theorem Round.write_maxIn (st : SagaState) (kind : String) (command : Option Command) :
    (r.write o st kind command).maxIn = r.maxIn := by
  unfold write emit
  dsimp only [put]
  split <;> rfl

@[simp] theorem Round.rejectInput_maxIn : r.rejectInput.maxIn = r.maxIn := rfl

variable [Digest]

theorem Round.start_maxIn (msg : InputMsg) : (r.start o registry p msg).maxIn = r.maxIn := by
  unfold start
  dsimp only
  repeat' split
  all_goals simp

theorem Round.result_maxIn (msg : InputMsg) : (r.result o registry p msg).maxIn = r.maxIn := by
  unfold result concluded
  dsimp only
  repeat' split
  all_goals simp

theorem Round.operation_maxIn (msg : InputMsg) :
    (r.operation o registry p msg).maxIn = r.maxIn := by
  unfold operation operated
  dsimp only
  repeat' split
  all_goals simp

theorem Round.input_maxIn (msg : InputMsg) : r.maxIn ≤ (r.input o registry p msg).maxIn := by
  unfold input
  split
  · exact Nat.le_refl _
  have grown : r.maxIn ≤ max r.maxIn msg.seq := Nat.le_max_left _ _
  split
  · rwa [start_maxIn]
  · rwa [result_maxIn]
  · rwa [operation_maxIn]
  · rwa [rejectInput_maxIn]

theorem Round.timer_maxIn (id : String) : (r.timer o registry p id).maxIn = r.maxIn := by
  unfold timer due
  repeat' split
  all_goals simp

theorem Round.timers_maxIn (seen due : List String) :
    (timers o registry p seen due r).maxIn = r.maxIn := by
  induction due generalizing seen r with
  | nil => rfl
  | cons id rest ih =>
    unfold timers
    split
    · exact ih r seen
    · rw [ih, timer_maxIn]

theorem Partition.decide_maxIn (batch : List InputMsg) (now : Time) :
    p.inHi ≤ (p.decide o registry batch now).1.maxIn := by
  have inputs (r : Round) : r.maxIn ≤ (batch.foldl (input o registry p) r).maxIn := by
    induction batch generalizing r with
    | nil => exact Nat.le_refl _
    | cons msg rest ih => exact Nat.le_trans (input_maxIn o registry p r msg) (ih _)
  change p.inHi ≤ (timers o registry p [] _ _).maxIn
  rw [timers_maxIn]
  exact inputs (p.newRound now)

end watermark

section commit
variable {p : Partition} {r : Round}

@[simp] theorem Partition.enlist_sagas (p : Partition) (id : String) (st : SagaState) :
    (p.enlist id st).sagas = p.sagas := by
  unfold enlist
  split
  · rfl
  · split <;> rfl

@[simp] theorem Partition.enlist_lastEv (p : Partition) (id : String) (st : SagaState) :
    (p.enlist id st).lastEv = p.lastEv := by
  unfold enlist
  split
  · rfl
  · split <;> rfl

theorem Partition.place_get (p : Partition) (id other : String) : (p.place r id).sagas.get other =
      if other = id then r.get p id else p.sagas.get other := by
  unfold place Round.get
  cases found : r.overlay.get id with
  | none =>
    by_cases same : other = id
    · rw [if_pos same, same]
    · rw [if_neg same]
  | some st => simp only [enlist_sagas, Table.get_set]

theorem Partition.placeAll_get (ids : List String) (p : Partition) (other : String) :
    (ids.foldl (place r) p).sagas.get other =
      if other ∈ ids then r.get p other else p.sagas.get other := by
  induction ids generalizing p with
  | nil => simp
  | cons id rest ih =>
    have placed (key : String) : r.get (p.place r id) key = r.get p key := by
      simp only [Round.get]
      cases found : r.overlay.get key with
      | some st => rfl
      | none =>
        simp only [place_get]
        split
        · rename_i same
          rw [same] at found
          simp [Round.get, found, same]
        · rfl
    rw [List.foldl_cons, ih, placed, place_get]
    by_cases later : other ∈ rest
    · simp [later]
    by_cases here : other = id
    · simp [here]
    · simp [later, here]

theorem Partition.install_get (indexed : r.Indexed) (p : Partition) (lastEv : Nat) (id : String) :
    (p.install r lastEv).sagas.get id = r.get p id := by
  unfold install
  have outside (untouched : id ∉ r.touched) : r.get p id = p.sagas.get id := by
    unfold Round.get
    cases found : r.overlay.get id with
    | none => rfl
    | some st => exact absurd ((indexed.touched id).mpr ⟨st, found⟩) untouched
  split
  · rename_i none
    refine (outside fun member => ?_).symm
    obtain ⟨st, found⟩ := (indexed.touched id).mp member
    obtain ⟨i, here⟩ := indexed.covered id st found
    obtain ⟨ev, event, -⟩ := indexed.last id i here
    rw [List.eq_nil_of_length_eq_zero none] at event
    simp at event
  · rw [placeAll_get]
    split
    · rfl
    · rename_i untouched
      exact (outside untouched).symm

theorem Partition.install_lastEv (p : Partition) (r : Round) (lastEv : Nat) :
    (p.install r lastEv).lastEv = if r.events.length = 0 then p.lastEv else lastEv := by
  have placed (ids : List String) (p : Partition) :
      (ids.foldl (place r) p).lastEv = p.lastEv := by
    induction ids generalizing p with
    | nil => rfl
    | cons id rest ih =>
      rw [List.foldl_cons, ih]
      unfold place
      split
      · simp
      · rfl
  unfold install
  split
  · rfl
  · exact placed _ _

/-- A prune drops nothing but concluded sagas that were last updated before the cutoff. -/
theorem pruneLoop_cases (cutoff : Time) (budget : Nat) (queue : List PruneEntry)
    (sagas : Table String SagaState) (id : String) :
    (pruneLoop cutoff budget queue sagas).2.get id = sagas.get id ∨
      (pruneLoop cutoff budget queue sagas).2.get id = none ∧ ∃ st ∈ sagas.get id,
        prunable st.record.status = true ∧ st.record.updatedAt < cutoff := by
  induction budget generalizing queue sagas with
  | zero => exact .inl rfl
  | succ budget ih =>
    cases queue with
    | nil => exact .inl rfl
    | cons head rest =>
      unfold pruneLoop
      split
      · exact .inl rfl
      rename_i old
      split
      · rename_i st found
        split
        · rename_i drops
          have next := ih rest (sagas.remove head.id)
          by_cases same : id = head.id
          · rw [same, Table.get_remove_self] at next
            rw [same]
            exact .inr ⟨next.elim (·) And.left, st, found, drops.2, drops.1 ▸ not_not.mp old⟩
          · rwa [Table.get_remove_ne _ same] at next
        · exact ih rest sagas
      · exact ih rest sagas

theorem pruneLoop_get (cutoff : Time) (budget : Nat) (queue : List PruneEntry)
    (sagas : Table String SagaState) (id : String) (st : SagaState)
    (found : (pruneLoop cutoff budget queue sagas).2.get id = some st) :
    sagas.get id = some st := by
  rcases pruneLoop_cases cutoff budget queue sagas id with same | ⟨none, -⟩
  · exact same ▸ found
  · rw [none] at found
    contradiction

end commit

end Roost.Saga
