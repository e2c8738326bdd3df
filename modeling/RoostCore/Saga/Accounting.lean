import RoostCore.Saga.Position
import RoostCore.Saga.Life

/-! Step accounting: the two counters of the record and the tombstones of the saga
describe the same set of steps in effect. -/
namespace Roost.Saga
open Go Option Transition

def SagaState.operation (st : SagaState) (phase : Phase) (i : Nat) : String :=
  operationKey st.record.id st.record.lifecycle phase i

def SagaState.closedWithResult (st : SagaState) (operation : String) : Prop :=
  (st.ops.get operation).map OpTombstone.closure = some .closedWithResult
  deriving Decidable

/-- The operation of step `i` is closed with a result. -/
def SagaState.closed (st : SagaState) (phase : Phase) (i : Nat) : Prop :=
  st.closedWithResult (st.operation phase i)
  deriving Decidable

/-- The steps the counters say are in effect. -/
def InEffect (r : Record) (i : Nat) : Prop := (i : Int) < r.completedSteps ∨ (i : Int) = r.lateStep - 1

theorem operationKey_ne_empty (id lifecycle : String) (phase : Phase) (step : Int) :
    operationKey id lifecycle phase step ≠ "" := by
  intro empty
  have texts := congrArg String.toList empty
  simp [operationKey] at texts

theorem currentOperation_nat (nonneg : 0 ≤ r.step) :
    currentOperation r = operationKey r.id r.lifecycle r.phase (r.step.toNat : Nat) := by
  rw [Int.toNat_of_nonneg nonneg]
  rfl

theorem Placed.openOperation (placed : Placed r) :
    openOperation r = "" ∨ (openOperation r = currentOperation r ∧ r.status.terminal = false) := by
  have standing := placed.standing
  unfold Standing at standing
  unfold Saga.openOperation
  cases status : r.status <;> simp only [status] at standing ⊢
  case waiting => exact .inr ⟨standing.1, rfl⟩
  case pending => split <;> simp [Status.terminal]
  case compensating => split <;> simp [Status.terminal]
  all_goals exact .inl trivial

theorem Placed.positioned (placed : Placed r) (positioned : positionedAt r operation = true) :
    operation = currentOperation r ∧ r.status.terminal = false := by
  have standing := placed.standing
  unfold Standing at standing
  unfold positionedAt at positioned
  cases status : r.status <;> simp only [status, beq_iff_eq] at standing positioned
  case waiting => exact ⟨positioned.symm.trans standing.1, rfl⟩
  case pending => exact ⟨positioned.symm, rfl⟩
  case compensating => exact ⟨positioned.symm, rfl⟩
  all_goals exact absurd positioned (by decide)

theorem Placed.step_nonneg (placed : Placed r) (live : r.status.terminal = false) : 0 ≤ r.step := by
  have counted := placed.counted
  rcases placed.live live with ahead | behind
  · rw [ahead.1.2]
    exact counted.completed_nonneg
  · rcases behind.2 with late | prefixed <;> omega

/-- A success is accepted for the operation the record stands at, a failure only
while the record waits for that operation. -/
theorem accept_live (placed : Placed r) (accept : judgeCompletion r c incarnation = .accept) :
    c.idempotencyKey = currentOperation r ∧ r.status.terminal = false := by
  unfold judgeCompletion at accept
  dsimp only at accept
  split at accept
  · contradiction
  split at accept
  · split at accept
    · rename_i positioned
      exact placed.positioned positioned.2
    · contradiction
  · split at accept
    · contradiction
    split at accept
    · contradiction
    rename_i waits
    simp only [not_or, not_not] at waits
    have standing := placed.standing
    simp only [Standing, waits.1] at standing
    exact ⟨waits.2.symm.trans standing.1, by rw [waits.1]; rfl⟩

/-- A transition closes the operation whose success it accepts, or else the one it
leaves. -/
theorem planTransition_closes (before after : Record) (t : Transition) :
    (∃ operation, t.success = some operation ∧ (planTransition before after t).2 = operation) ∨
      (t.success = none ∧ ((planTransition before after t).2 = "" ∨
        (planTransition before after t).2 = openOperation before)) := by
  unfold planTransition
  cases t.success with
  | some operation => exact .inl ⟨operation, rfl, rfl⟩
  | none =>
    refine .inr ⟨rfl, ?_⟩
    simp only [getD_none]
    split
    · split
      · exact .inr rfl
      · exact .inl rfl
    · split
      · exact .inr rfl
      · exact .inl rfl

section apply
variable [Digest] (st : SagaState) (after : Record) (t : Transition)

@[simp] theorem apply_record :
    (st.apply after t).record = (planTransition st.record after t).1 := rfl

theorem apply_get (key : String) : (st.apply after t).ops.get key =
      if key = (planTransition st.record after t).2 ∧ key ≠ "" then
        some (closeTombstone (st.ops.get key) t.success.isSome)
      else st.ops.get key := by
  have written : (st.apply after t).ops =
      if (planTransition st.record after t).2 = "" then st.ops
      else st.ops.set (planTransition st.record after t).2
        (closeTombstone (st.ops.get (planTransition st.record after t).2) t.success.isSome) := rfl
  rw [written]
  generalize (planTransition st.record after t).2 = closed
  by_cases empty : closed = ""
  · subst empty
    simp
  · by_cases same : key = closed
    · subst same
      simp [empty]
    · simp [empty, same, Table.get_set_ne]

/-- A transition closes with a result exactly the operation whose success it accepts. -/
theorem apply_closed (key : String) (named : t.success ≠ some "") :
    (st.apply after t).closedWithResult key ↔
      st.closedWithResult key ∨ t.success = some key := by
  unfold SagaState.closedWithResult
  rw [apply_get]
  rcases planTransition_closes st.record after t with ⟨operation, success, closes⟩ | ⟨none, _⟩
  · rw [closes, success]
    have nonempty : operation ≠ "" := fun empty => named (by rw [success, empty])
    by_cases same : key = operation
    · subst same
      simp [nonempty, closeTombstone]
    · simp [same, Ne.symm same]
  · simp only [none, isSome_none, reduceCtorEq, or_false]
    split
    · cases st.ops.get key <;> simp [closeTombstone]
    · rfl

theorem apply_ops (found : (st.apply after t).ops.get key = some tomb) :
    (∃ prior, st.ops.get key = some prior) ∨ t.success = some key ∨
      (key = openOperation st.record ∧ key ≠ "") := by
  rw [apply_get] at found
  split at found
  · rename_i closes
    rcases planTransition_closes st.record after t with ⟨operation, success, same⟩ | ⟨_, empty | left⟩
    · exact .inr (.inl (by rw [success, closes.1, same]))
    · exact absurd (closes.1.trans empty) closes.2
    · exact .inr (.inr ⟨closes.1.trans left, closes.2⟩)
  · exact .inl ⟨tomb, found⟩

end apply

theorem operation_ne_empty (st : SagaState) (phase : Phase) (i : Nat) : st.operation phase i ≠ "" :=
  operationKey_ne_empty _ _ _ _

theorem operation_inj {st : SagaState} : st.operation p i = st.operation q j ↔ p = q ∧ i = j := by
  refine ⟨operationKey_injective, ?_⟩
  rintro ⟨rfl, rfl⟩
  rfl

theorem operation_of_identity {st next : SagaState}
    (same : next.record.identity = st.record.identity) (phase : Phase) (i : Nat) :
    next.operation phase i = st.operation phase i := by
  have id := congrArg Identity.id same
  have lifecycle := congrArg Identity.lifecycle same
  simp only [Record.identity] at id lifecycle
  simp [SagaState.operation, id, lifecycle]

/-- Tombstones and counters agree, and every tombstone names an operation of the saga. -/
structure Ledger (st : SagaState) : Prop where
  placed : Placed st.record
  effective : ∀ i, (st.closed .forward i ∧ ¬ st.closed .compensate i) ↔ InEffect st.record i
  undone : ∀ i, st.closed .compensate i → st.closed .forward i
  forward : st.record.phase = .forward → ∀ i, ¬ st.closed .compensate i
  canonical : ∀ key tomb, st.ops.get key = some tomb → ∃ phase i, key = st.operation phase i

/-- The operation a live record stands at, with its step as an index. -/
theorem Ledger.current (ledger : Ledger st) (live : st.record.status.terminal = false) :
    currentOperation st.record = st.operation st.record.phase st.record.step.toNat :=
  currentOperation_nat (ledger.placed.step_nonneg live)

theorem Placed.written (placed : Placed after) :
    Placed (planTransition before after t).1 := ⟨placed.counted, placed.standing⟩

section transitions
variable [Digest] {st : SagaState} {after : Record} {t : Transition}

theorem closed_apply (same : after.identity = st.record.identity) (named : t.success ≠ some "")
    (phase : Phase) (i : Nat) :
    (st.apply after t).closed phase i ↔
      st.closed phase i ∨ t.success = some (st.operation phase i) := by
  unfold SagaState.closed
  have operation : (st.apply after t).operation phase i = st.operation phase i :=
    operation_of_identity (by rw [apply_record]; exact same) phase i
  rw [operation, apply_closed st after t _ named]

theorem closed_success (same : after.identity = st.record.identity) (success : t.success = some (st.operation p i))
    (q : Phase) (j : Nat) : (st.apply after t).closed q j ↔ st.closed q j ∨ p = q ∧ i = j := by
  have named : t.success ≠ some "" := by
    rw [success]
    simpa using operation_ne_empty st p i
  rw [closed_apply same named, success, some.injEq, operation_inj]

theorem Ledger.canonical_apply (ledger : Ledger st) (same : after.identity = st.record.identity)
    (named : ∀ key, t.success = some key → ∃ phase i, key = st.operation phase i) :
    ∀ key tomb, (st.apply after t).ops.get key = some tomb →
      ∃ phase i, key = (st.apply after t).operation phase i := by
  intro key tomb found
  have operation (phase : Phase) (i : Nat) :
      (st.apply after t).operation phase i = st.operation phase i :=
    operation_of_identity (by rw [apply_record]; exact same) phase i
  simp only [operation]
  rcases apply_ops st after t found with ⟨prior, known⟩ | success | ⟨opened, nonempty⟩
  · exact ledger.canonical key prior known
  · exact named key success
  rcases ledger.placed.openOperation with none | ⟨current, live⟩
  · exact absurd (opened.trans none) nonempty
  · exact ⟨_, _, opened.trans (current.trans (ledger.current live))⟩

/-- A transition without an accepted success leaves the ledger as it is. -/
theorem Ledger.quiet (ledger : Ledger st) (none : t.success = none) (placed : Placed after)
    (quiet : Quiet st.record after) : Ledger (st.apply after t) := by
  have named : t.success ≠ some "" := by rw [none]; nofun
  have closed (phase : Phase) (i : Nat) :
      (st.apply after t).closed phase i ↔ st.closed phase i := by
    rw [closed_apply quiet.identity named, none]
    simp
  refine ⟨placed.written, ?_, ?_, ?_, ?_⟩
  · intro i
    rw [closed, closed, ledger.effective i]
    change (_ < _ ∨ _ = _) ↔ ((i : Int) < after.completedSteps ∨ (i : Int) = after.lateStep - 1)
    rw [quiet.completed, quiet.late]
  · intro i
    rw [closed, closed]
    exact ledger.undone i
  · intro forward i
    rw [closed]
    exact ledger.forward (quiet.forward forward) i
  · exact ledger.canonical_apply quiet.identity (by rw [none]; nofun)

/-- An accepted success of the forward step `i`, which was not closed before. -/
theorem Ledger.advance (ledger : Ledger st) (success : t.success = some (st.operation .forward i))
    (same : after.identity = st.record.identity) (placed : Placed after)
    (opened : ¬ st.closed .forward i)
    (effect : ∀ j, InEffect after j ↔ InEffect st.record j ∨ j = i)
    (forward : after.phase = .forward → st.record.phase = .forward) : Ledger (st.apply after t) := by
  have closedForward (j : Nat) :
      (st.apply after t).closed .forward j ↔ st.closed .forward j ∨ j = i := by
    simp [closed_success same success, eq_comm]
  have closedBack (j : Nat) :
      (st.apply after t).closed .compensate j ↔ st.closed .compensate j := by
    simp [closed_success same success]
  refine ⟨placed.written, ?_, ?_, ?_, ?_⟩
  · intro j
    rw [closedForward, closedBack]
    change _ ↔ InEffect after j
    rw [effect, ← ledger.effective j]
    by_cases chosen : j = i
    · subst chosen
      have notUndone : ¬ st.closed .compensate j := fun undone => opened (ledger.undone j undone)
      simp [notUndone]
    · simp [chosen]
  · intro j undone
    rw [closedBack] at undone
    rw [closedForward]
    exact .inl (ledger.undone j undone)
  · intro phase j
    rw [closedBack]
    exact ledger.forward (forward phase) j
  · apply ledger.canonical_apply same
    intro key closes
    exact ⟨.forward, i, some.inj (closes.symm.trans success)⟩

/-- An accepted success of the compensation of step `i`, which was in effect. -/
theorem Ledger.retreat (ledger : Ledger st)
    (success : t.success = some (st.operation .compensate i))
    (same : after.identity = st.record.identity) (placed : Placed after)
    (held : InEffect st.record i)
    (effect : ∀ j, InEffect after j ↔ InEffect st.record j ∧ j ≠ i)
    (phase : after.phase = .compensate) : Ledger (st.apply after t) := by
  have closedForward (j : Nat) :
      (st.apply after t).closed .forward j ↔ st.closed .forward j := by
    simp [closed_success same success]
  have closedBack (j : Nat) :
      (st.apply after t).closed .compensate j ↔ st.closed .compensate j ∨ j = i := by
    simp [closed_success same success, eq_comm]
  refine ⟨placed.written, ?_, ?_, ?_, ?_⟩
  · intro j
    rw [closedForward, closedBack]
    change _ ↔ InEffect after j
    rw [effect, ← ledger.effective j, not_or, and_assoc]
  · intro j undone
    rw [closedBack] at undone
    rw [closedForward]
    rcases undone with before | rfl
    · exact ledger.undone j before
    · exact ((ledger.effective j).mpr held).1
  · intro forward
    exact absurd (phase.symm.trans forward) (by decide)
  · apply ledger.canonical_apply same
    intro key closes
    exact ⟨.compensate, i, some.inj (closes.symm.trans success)⟩

omit [Digest] in
theorem lateForwardStep_left (forward : lateForwardStep r operation = some step) :
    r.phase = .compensate ∨ r.status = .failed ∨ r.status = .manualRequired := by
  unfold lateForwardStep at forward
  split at forward
  · split at forward
    · contradiction
    split at forward
    · assumption
    · contradiction
  · contradiction

omit [Digest] in
/-- The late step's operation was abandoned, so its step was not in effect. -/
theorem Ledger.late_step (ledger : Ledger st) (abandoned : Abandoned st c tomb)
    (forward : lateForwardStep st.record c.idempotencyKey = some step) :
    ∃ i : Nat, step = i ∧ c.idempotencyKey = st.operation .forward i ∧
      ¬ st.closed .forward i ∧ st.record.completedSteps ≤ i ∧ st.record.lateStep = 0 ∧
      (st.record.phase = .compensate ∨ st.record.status = .failed ∨
        st.record.status = .manualRequired) := by
  obtain ⟨phase, i, named⟩ := ledger.canonical _ _ abandoned.found
  have parsed := parseOperationKey_operationKey st.record phase i
  unfold lateForwardStep at forward
  rw [named, SagaState.operation, parsed] at forward
  by_cases fits : i < 2 ^ 63
  · rw [if_pos fits] at forward
    cases phase with
    | compensate => contradiction
    | forward =>
      dsimp only at forward
      split at forward
      · contradiction
      rename_i outside
      split at forward
      · rename_i left
        cases forward
        simp only [not_or, Int.not_lt, not_and, not_not] at outside
        have opened : ¬ st.closed .forward i := by
          unfold SagaState.closed SagaState.closedWithResult
          rw [← named, abandoned.found]
          simp [abandoned.closure]
        refine ⟨i, rfl, named, opened, outside.1, ?_, left⟩
        -- a late step already recorded is closed with a result, this one is not
        by_contra recorded
        have held : InEffect st.record i := .inr (by rw [outside.2 recorded]; omega)
        exact opened ((ledger.effective i).mpr held).1
      · contradiction
  · rw [if_neg fits] at forward
    contradiction

theorem Ledger.accept_forward (ledger : Ledger st) (definition : Definition)
    (live : st.record.status.terminal = false) (ahead : Ahead st.record)
    (noLate : st.record.lateStep = 0) (succeeded : c.success = true)
    (operation : c.idempotencyKey = st.operation .forward st.record.step.toNat) :
    Ledger (st.apply (applyCompletion st.record definition c)
      { cause := .result, receipt := some c }) ∧ ¬ st.closedWithResult c.idempotencyKey := by
  have placed := applyCompletion_placed definition c ledger.placed live
  have nonneg := ledger.placed.step_nonneg live
  have same := applyCompletion_forward definition succeeded ahead.1
  obtain ⟨identity, completed, late, forward⟩ :=
    forwardSuccess_frame (Saga.succeeded st.record c) definition c.completedAt
  rw [← same] at identity completed late forward
  have opened : ¬ st.closed .forward st.record.step.toNat := by
    intro closed
    have held := (ledger.effective _).mp ⟨closed, ledger.forward ahead.1 _⟩
    have := ahead.2
    rcases held with before | last <;> omega
  refine ⟨ledger.advance ?_ identity placed opened ?_ forward, operation ▸ opened⟩
  · simp [success, succeeded, operation]
  · intro j
    have := ahead.2
    unfold InEffect
    rw [completed, late]
    change ((j : Int) < st.record.step + 1 ∨ (j : Int) = st.record.lateStep - 1) ↔ _
    omega

theorem Ledger.accept_compensate (ledger : Ledger st) (definition : Definition)
    (live : st.record.status.terminal = false) (behind : Behind st.record)
    (succeeded : c.success = true)
    (operation : c.idempotencyKey = st.operation .compensate st.record.step.toNat) :
    Ledger (st.apply (applyCompletion st.record definition c)
      { cause := .result, receipt := some c }) ∧ ¬ st.closedWithResult c.idempotencyKey := by
  have placed := applyCompletion_placed definition c ledger.placed live
  have nonneg := ledger.placed.step_nonneg live
  have same := applyCompletion_compensate definition succeeded behind.1
  obtain ⟨identity, phase, completed, late⟩ :=
    compensateSuccess_frame (Saga.succeeded st.record c) c.completedAt
  rw [← same] at identity phase completed late
  have held : InEffect st.record st.record.step.toNat := by
    unfold InEffect
    rcases behind.2 with last | last <;> omega
  refine ⟨ledger.retreat ?_ identity placed held ?_ phase,
    operation ▸ ((ledger.effective _).mpr held).2⟩
  · simp [success, succeeded, operation]
  · intro j
    have counted := ledger.placed.counted
    have := counted.late_nonneg
    have := counted.late_outside
    unfold InEffect
    rw [completed, late]
    change (_ < (if compensatingLateStep st.record then st.record.completedSteps
        else st.record.completedSteps - 1) ∨
      _ = (if compensatingLateStep st.record then 0 else st.record.lateStep) - 1) ↔ _
    by_cases chosen : 0 < st.record.lateStep ∧ st.record.step = st.record.lateStep - 1
    · have isLate : compensatingLateStep st.record = true := by
        simp [compensatingLateStep, behind.1, chosen]
      simp only [isLate, if_true]
      omega
    · have notLate : compensatingLateStep st.record = false := by
        simpa [compensatingLateStep, behind.1] using chosen
      simp only [notLate, if_false, Bool.false_eq_true]
      have := behind.2
      omega

theorem Ledger.accept (ledger : Ledger st) (definition : Definition) (accepts : Accepts st c) :
    Ledger (st.apply (applyCompletion st.record definition c)
      { cause := .result, receipt := some c }) ∧
      (c.success = true → ¬ st.closedWithResult c.idempotencyKey) := by
  obtain ⟨operation, live⟩ := accept_live ledger.placed accepts.verdict
  rw [ledger.current live] at operation
  cases succeeded : c.success with
  | false =>
    have placed := applyCompletion_placed definition c ledger.placed live
    have quiet := applyCompletion_quiet st.record definition succeeded
    exact ⟨ledger.quiet (by simp [success, succeeded]) placed quiet, nofun⟩
  | true =>
    rcases ledger.placed.live live with ⟨ahead, noLate⟩ | behind
    · rw [ahead.1] at operation
      have next := ledger.accept_forward definition live ahead noLate succeeded operation
      exact ⟨next.1, fun _ => next.2⟩
    · rw [behind.1] at operation
      have next := ledger.accept_compensate definition live behind succeeded operation
      exact ⟨next.1, fun _ => next.2⟩

theorem Ledger.late (ledger : Ledger st) (abandoned : Abandoned st c tomb)
    (forward : lateForwardStep st.record c.idempotencyKey = some step) :
    Ledger (st.apply (lateStepState st.record c step)
      { cause := .lateSuccess, receipt := some c }) ∧ ¬ st.closedWithResult c.idempotencyKey := by
  obtain ⟨i, rfl, named, opened, outside, noLate, left⟩ := ledger.late_step abandoned forward
  obtain ⟨identity, completed, late, phase⟩ := lateStepState_frame st.record c i
  have placed := lateStepState_placed c ledger.placed outside (.inl noLate) left
  refine ⟨ledger.advance ?_ identity placed opened ?_ phase, named ▸ opened⟩
  · simp [success, abandoned.success, named]
  · intro j
    unfold InEffect
    omega

omit [Digest] in
theorem alarm_closed (found : st.ops.get operation = some tomb) (key : String) :
    (st.alarm operation tomb incarnation).closedWithResult key ↔ st.closedWithResult key := by
  unfold SagaState.closedWithResult SagaState.alarm
  rw [Table.get_set]
  split
  · rename_i same
    simp [same, found]
  · rfl

omit [Digest] in
theorem Ledger.alarm (ledger : Ledger st) (found : st.ops.get operation = some tomb) :
    Ledger (st.alarm operation tomb incarnation) := by
  refine ⟨ledger.placed, ?_, ?_, ?_, ?_⟩
  · intro i
    rw [SagaState.closed, SagaState.closed, alarm_closed found, alarm_closed found]
    exact ledger.effective i
  · intro i
    rw [SagaState.closed, SagaState.closed, alarm_closed found, alarm_closed found]
    exact ledger.undone i
  · intro phase i
    rw [SagaState.closed, alarm_closed found]
    exact ledger.forward phase i
  · intro key other known
    unfold SagaState.alarm at known
    rw [Table.get_set] at known
    split at known
    · rename_i same
      exact ledger.canonical key tomb (same ▸ found)
    · exact ledger.canonical key other known

/-- What one move does to the closings: it adds the operation it closes with a
result, which was not closed before, and no other. -/
theorem Ledger.closing (ledger : Ledger st) (move : Move st definition event turn) :
    Ledger turn.next ∧
      (∀ key, turn.next.closedWithResult key ↔
        st.closedWithResult key ∨ turn.closing = some key) ∧
      (∀ key, turn.closing = some key → ¬ st.closedWithResult key) := by
  have quiet {after : Record} {cause : TransitionCause} (placed : Placed after)
      (quiet : Quiet st.record after) :
      Ledger (st.apply after { cause }) ∧
        (∀ key, (st.apply after { cause }).closedWithResult key ↔
          st.closedWithResult key ∨ none = some key) ∧
        (∀ key, none = some key → ¬ st.closedWithResult key) :=
    ⟨ledger.quiet rfl placed quiet, fun key => apply_closed st after _ key nofun, nofun⟩
  cases move with
  | idle => exact ⟨ledger, by simp, nofun⟩
  | due live => exact quiet (planDue_placed _ _ ledger.placed live) (planDue_quiet _ _ _)
  | resume _ planned => exact quiet (planResume_placed ledger.placed planned) (planResume_quiet planned)
  | compensate planned =>
    exact quiet (planCompensate_placed ledger.placed planned) (planCompensate_quiet planned)
  | @accept c d defined accepts =>
    obtain ⟨next, fresh⟩ := ledger.accept d accepts
    have operation := (accept_live ledger.placed accepts.verdict).1
    refine ⟨next, fun key => ?_, fun key closes => ?_⟩
    · rw [apply_closed]
      · rfl
      · have nonempty : c.idempotencyKey ≠ "" := operation ▸ operationKey_ne_empty _ _ _ _
        simp only [success]
        split <;> simp [nonempty]
    · by_cases success : c.success = true
      · simp only [success, if_true, some.injEq] at closes
        exact closes ▸ fresh success
      · simp [success] at closes
  | @late c tomb step abandoned forward =>
    obtain ⟨next, fresh⟩ := ledger.late abandoned forward
    obtain ⟨i, -, named, -⟩ := ledger.late_step abandoned forward
    refine ⟨next, fun key => ?_, fun key closes => some.inj closes ▸ fresh⟩
    rw [apply_closed]
    · simp [success, abandoned.success]
    · simp [success, abandoned.success, named, operation_ne_empty]
  | alarm abandoned =>
    exact ⟨ledger.alarm abandoned.found, by simp [alarm_closed abandoned.found], nofun⟩

end transitions

/-- What holds along the life of a saga with one definition. -/
structure Audit (definition : Definition) (life : Life) : Prop where
  ledger : Ledger life.saga
  once : life.closings.Nodup
  recorded : ∀ key, life.saga.closedWithResult key ↔ key ∈ life.closings
  finished : life.saga.record.status = .completed →
    (definition.steps.length : Int) ≤ life.saga.record.completedSteps

section lives
variable [Digest]

/-- What a move does to the record: the counters stay, or they take the success of the step
that the record stands at, or the late step. The incarnation is written besides. -/
inductive Progress (st : SagaState) (definition : Option Definition) : Event → Record → Prop where
  | quiet {event after n} (quiet : Quiet st.record after)
      (still : Placed st.record → st.record.status = .completed → after.status = .completed) :
      Progress st definition event { after with incarnation := n }
  | ahead {c d n} (defined : definition = some d) (accepts : Accepts st c)
      (success : c.success = true) (phase : st.record.phase = .forward) :
      Progress st definition (.result c)
        { forwardSuccess (succeeded st.record c) d c.completedAt with incarnation := n }
  | back {c n} (accepts : Accepts st c) (success : c.success = true)
      (phase : st.record.phase = .compensate) :
      Progress st definition (.result c)
        { compensateSuccess (succeeded st.record c) c.completedAt with incarnation := n }
  | late {c tomb step n} (abandoned : Abandoned st c tomb)
      (forward : lateForwardStep st.record c.idempotencyKey = some step) :
      Progress st definition (.result c) { lateStepState st.record c step with incarnation := n }

theorem Move.progress (move : Move st definition event turn) :
    Progress st definition event turn.next.record := by
  cases move with
  | idle | alarm =>
    have still : Quiet st.record st.record := ⟨rfl, rfl, rfl, rfl, id, id⟩
    exact .quiet still fun _ => id
  | due live => exact .quiet (planDue_quiet _ _ _) fun _ done => absurd done (live_unfinished live)
  | resume _ planned =>
    refine .quiet (planResume_quiet planned) fun _ done => ?_
    have stopped := (planResume_ok planned).1
    simp [done] at stopped
  | compensate planned =>
    exact .quiet (planCompensate_quiet planned) fun _ done => absurd done (planCompensate_write planned).1
  | @accept c d defined accepts =>
    by_cases success : c.success = true
    · cases phase : st.record.phase with
      | forward =>
        simp only [applyCompletion_forward d success phase]
        exact .ahead defined accepts success phase
      | compensate =>
        simp only [applyCompletion_compensate d success phase]
        exact .back accepts success phase
    · refine .quiet (applyCompletion_quiet _ _ (Bool.eq_false_iff.mpr success)) fun placed done => ?_
      exact absurd done (live_unfinished (accept_live placed accepts.verdict).2)
  | late abandoned forward => exact .late abandoned forward

theorem completed_move (placed : Placed st.record) (finished : st.record.status = .completed →
      (d.steps.length : Int) ≤ st.record.completedSteps)
    (same : ∀ d', definition = some d' → d' = d) (move : Move st definition event turn)
    (completed : turn.next.record.status = .completed) :
    (d.steps.length : Int) ≤ turn.next.record.completedSteps := by
  have progress := move.progress
  generalize turn.next.record = next at progress completed
  cases progress with
  | @quiet _ after _ quiet =>
    rw [quiet.completed]
    exact finished (quiet.unfinished completed)
  | ahead defined accepts success phase =>
    cases same _ defined
    exact forwardSuccess_completed d (accept_live placed accepts.verdict).2 completed
  | @back c =>
    rw [Saga.compensateSuccess] at completed
    split at completed <;> exact absurd completed (nextCompensation_unfinished _ _)
  | @late c tomb step n abandoned forward =>
    unfold lateStepState at completed
    split at completed
    · exact absurd completed (nextCompensation_unfinished _ _)
    -- a completed record stands in the forward phase, where no late step is taken
    change st.record.status = .completed at completed
    have standing := placed.standing
    simp only [Standing, completed] at standing
    have left := lateForwardStep_left forward
    simp [standing.1, completed] at left

theorem Audit.start (definition : Definition)
    (started : newStartRecord request saga lifecycle now = .ok record) :
    Audit definition (Life.start record) := by
  obtain ⟨-, -, status, phase, -, completed, late, -, -⟩ := newStartRecord_fresh started
  have none (key : String) : ¬ (Life.start record).saga.closedWithResult key := nofun
  refine ⟨⟨newStartRecord_placed started, ?_, ?_, ?_, ?_⟩, List.nodup_nil, ?_, ?_⟩
  · intro i
    constructor
    · exact fun closed => absurd closed.1 (none _)
    · intro held
      change (i : Int) < record.completedSteps ∨ (i : Int) = record.lateStep - 1 at held
      omega
  · exact fun i undone => absurd undone (none _)
  · exact fun _ i => none _
  · exact nofun
  · exact fun key => ⟨fun closed => absurd closed (none key), nofun⟩
  · intro done
    exact absurd (status.symm.trans done) nofun

theorem Audit.step (retention : Duration) (definition : Definition) (life : Life)
    (input : Bool × Event) (audit : Audit definition life) :
    Audit definition (life.step retention definition input) := by
  have move := turn_move retention life.saga (if input.1 then some definition else none) input.2
  obtain ⟨ledger, closings, fresh⟩ := audit.ledger.closing move
  refine ⟨ledger, ?_, ?_, ?_⟩
  · change (life.closings ++ toList _).Nodup
    cases closes : (life.saga.turn retention _ input.2).closing with
    | none => simpa using audit.once
    | some key =>
      have absent : key ∉ life.closings := fun member =>
        fresh key closes ((audit.recorded key).mpr member)
      simpa using List.Nodup.concat absent audit.once
  · intro key
    change _ ↔ key ∈ life.closings ++ toList _
    rw [List.mem_append, mem_toList, ← audit.recorded key]
    exact closings key
  · intro done
    refine completed_move audit.ledger.placed audit.finished ?_ move done
    intro d' defined
    split at defined
    · exact (some.inj defined).symm
    · contradiction

/-- Step accounting. In every state of every life, under any times, any results and
any registration of the definition, the steps whose forward operation is closed with
a result and whose compensation is not are the ones the counters name; so no
operation is closed with a result twice, a completed saga has all its steps in effect
and a compensated one has none. -/
theorem step_accounting (retention : Duration) (definition : Definition) {request : StartRequest}
    {id lifecycle : String} {now : Time} {record : Record}
    (started : newStartRecord request id lifecycle now = .ok record)
    (inputs : List (Bool × Event)) :
    let life := run (Life.step retention definition) (Life.start record) inputs
    (∀ i : Nat, (life.saga.closed .forward i ∧ ¬ life.saga.closed .compensate i) ↔
      ((i : Int) < life.saga.record.completedSteps ∨ (i : Int) = life.saga.record.lateStep - 1)) ∧
    life.closings.Nodup ∧
    (∀ key, life.saga.closedWithResult key ↔ key ∈ life.closings) ∧
    (life.saga.record.status = .completed →
      (∀ i < definition.steps.length, life.saga.closed .forward i) ∧
        ∀ i, ¬ life.saga.closed .compensate i) ∧
    (life.saga.record.status = .compensated →
      ∀ i, life.saga.closed .forward i → life.saga.closed .compensate i) := by
  intro life
  have audit : Audit definition life :=
    invariant (Audit.step retention definition) (Audit.start definition started) inputs
  have standing := audit.ledger.placed.standing
  refine ⟨audit.ledger.effective, audit.once, audit.recorded, fun completed => ?_,
    fun compensated => ?_⟩
  · simp only [Standing, completed] at standing
    refine ⟨fun i bound => ?_, audit.ledger.forward standing.1⟩
    have all := audit.finished completed
    exact ((audit.ledger.effective i).mpr (.inl (by omega))).1
  · simp only [Standing, compensated] at standing
    intro i forward
    by_contra open_
    have held := (audit.ledger.effective i).mp ⟨forward, open_⟩
    obtain ⟨-, completed, late⟩ := standing
    rcases held with before | last <;> omega

end lives

theorem step_accounting_late_success : Sample.life.saga.record.status = .compensated ∧
      ∀ i, Sample.life.saga.closed .forward i → Sample.life.saga.closed .compensate i := by
  have started : @newStartRecord Digest.tail Sample.request "a42" "L" Sample.now =
      .ok Sample.record := by decide
  have compensated : Sample.life.saga.record.status = .compensated := by decide
  have accounts := @step_accounting Digest.tail 0 Sample.definition _ _ _ _ _ started Sample.inputs
  exact ⟨compensated, accounts.2.2.2.2 compensated⟩

end Roost.Saga
