import RoostCore.Saga.Accounting

/-! Dispatch identities. Attempts are bounded by the budgets of the definition, and
every reset of the attempt counter reaches an operation that the current incarnation
has not dispatched, so no command ID is minted twice. -/
namespace Roost.Saga
open Go Option

theorem validateSteps_valid (valid : validateSteps seen start steps = .ok ()) :
    ∀ s ∈ steps, s.valid = true := by
  induction steps generalizing seen start with
  | nil => exact nofun
  | cons head rest ih =>
    simp only [validateSteps] at valid
    split at valid
    · contradiction
    rename_i headValid
    split at valid
    · contradiction
    intro s member
    rcases List.mem_cons.mp member with rfl | member
    · simpa using headValid
    · exact ih valid s member

theorem Definition.step_valid {definition : Definition} (valid : definition.validate = .ok ()) :
    ∀ s ∈ definition.steps, s.valid = true := by
  unfold Definition.validate at valid
  split at valid
  · contradiction
  · exact validateSteps_valid valid

theorem ValidDefinition.steps_bound (definition : ValidDefinition) :
    definition.steps.length ≤ 256 := by
  have valid := definition.valid
  unfold Definition.validate at valid
  split at valid
  · contradiction
  rename_i bounds
  simp only [Bool.or_eq_true, decide_eq_true_eq, not_or, Nat.not_lt] at bounds
  exact bounds.2

theorem Step.attempts_bound {s : Step} (valid : s.valid = true) : s.maxAttempts.toNat ≤ 1000 := by
  simp only [Step.valid, Bool.and_eq_true, decide_eq_true_eq] at valid
  exact UInt32.le_iff_toNat_le.mp valid.1.1.2

theorem stepFor_mem (found : stepFor r definition = some step) : step ∈ definition.steps := by
  unfold stepFor at found
  split at found
  · contradiction
  · exact List.mem_of_getElem? found

/-- The attempts of the current operation stay within the largest budget, and a
record that will dispatch has one left. -/
structure Budget (r : Record) : Prop where
  bound : r.attempt.toNat ≤ 1000
  left : r.status = .pending ∨ r.status = .compensating → r.attempt.toNat < 1000
  reset : r.status = .compensated → r.attempt = 0

theorem Budget.zero (none : r.attempt = 0) : Budget r := by
  refine ⟨?_, fun _ => ?_, fun _ => none⟩ <;> rw [none] <;> decide

theorem nextCompensation_attempt (r : Record) (now : Time) : (nextCompensation r now).attempt = 0 := by
  unfold nextCompensation
  dsimp only
  split_ifs <;> rfl

theorem compensationState_attempt (r : Record) (reason : String) (now : Time) :
    (compensationState r reason now).attempt = 0 := by
  unfold compensationState
  dsimp only
  split
  · rfl
  · exact nextCompensation_attempt _ now

section budgets
variable {definition : Definition} (valid : definition.validate = .ok ())
include valid

theorem retryState_budget (reason : String) (now : Time) (bound : r.attempt.toNat ≤ 1000) :
    Budget (retryState r definition reason now) := by
  unfold retryState
  dsimp only
  split
  · exact ⟨bound, by simp, nofun⟩
  rename_i step found
  have most := Step.attempts_bound (Definition.step_valid valid step (stepFor_mem found))
  split
  · rename_i spare
    have less : r.attempt.toNat < 1000 := Nat.lt_of_lt_of_le (UInt32.lt_iff_toNat_lt.mp spare) most
    refine ⟨bound, fun _ => less, ?_⟩
    split <;> exact nofun
  · split
    · exact ⟨bound, by simp, nofun⟩
    · exact .zero (compensationState_attempt _ _ _)

theorem applyCompletion_budget (c : Completion) (bound : r.attempt.toNat ≤ 1000) :
    Budget (applyCompletion r definition c) := by
  unfold applyCompletion
  split
  · split
    · apply Budget.zero
      unfold forwardSuccess
      dsimp only
      split
      · exact compensationState_attempt _ _ _
      · split <;> rfl
    · apply Budget.zero
      unfold compensateSuccess
      split <;> exact nextCompensation_attempt _ _
  · split
    · split
      · exact ⟨bound, by simp, nofun⟩
      · exact .zero (compensationState_attempt _ _ _)
    · exact retryState_budget valid _ _ bound

end budgets

theorem planDue_budget (now : Time) (valid : ∀ d, definition = some d → d.validate = .ok ())
    (budget : Budget r) (live : r.status.terminal = false) :
    Budget (planDue r definition now).after := by
  unfold planDue
  split
  · exact ⟨budget.bound, by simp, by simp⟩
  rename_i d
  split
  · exact .zero (compensationState_attempt _ _ _)
  split
  · exact retryState_budget (valid d rfl) _ _ budget.bound
  split
  · exact ⟨budget.bound, by simp, by simp⟩
  have less := budget.left (by
    cases status : r.status <;> simp_all [Status.terminal])
  refine ⟨?_, by simp [dispatchPlan], by simp [dispatchPlan]⟩
  simp only [dispatchPlan, UInt32.toNat_add]
  have : UInt32.toNat 1 = 1 := rfl
  omega

/-- How a transition without an accepted success leaves the record's operation in the
same incarnation. -/
inductive Leaves (r after : Record) : Prop where
  | stay (phase : after.phase = r.phase) (step : after.step = r.step)
      (attempt : r.attempt ≤ after.attempt) : Leaves r after
  | fail (forward : r.phase = .forward) (status : after.status = .failed) : Leaves r after
  | turn (forward : r.phase = .forward) (backward : after.phase = .compensate) : Leaves r after

theorem Leaves.since (leaves : Leaves before after) (phase : before.phase = r.phase)
    (step : before.step = r.step) (attempt : before.attempt = r.attempt) : Leaves r after := by
  cases leaves with
  | stay samePhase sameStep grown =>
    exact .stay (samePhase.trans phase) (sameStep.trans step) (attempt ▸ grown)
  | fail forward status => exact .fail (phase ▸ forward) status
  | turn forward backward => exact .turn (phase ▸ forward) backward

theorem compensationState_leaves (reason : String) (now : Time) (forward : r.phase = .forward) :
    Leaves r (compensationState r reason now) := by
  unfold compensationState
  dsimp only
  split
  · exact .fail forward rfl
  · exact .turn forward (nextCompensation_phase _ now)

theorem retryState_leaves (r : Record) (definition : Definition) (reason : String) (now : Time) :
    Leaves r (retryState r definition reason now) := by
  unfold retryState
  dsimp only
  split
  · exact .stay rfl rfl (UInt32.le_refl _)
  split
  · exact .stay rfl rfl (UInt32.le_refl _)
  split
  · exact .stay rfl rfl (UInt32.le_refl _)
  rename_i forward
  have phase : r.phase = .forward := by
    cases phase : r.phase with
    | forward => rfl
    | compensate => exact absurd phase forward
  exact (compensationState_leaves reason now (by exact phase)).since rfl rfl rfl

theorem Budget.succ_attempt (budget : Budget r) : r.attempt < r.attempt + 1 := by
  rw [UInt32.lt_iff_toNat_lt, UInt32.toNat_add]
  have one : UInt32.toNat 1 = 1 := rfl
  have bound := budget.bound
  omega

theorem planDue_leaves (definition : Option Definition) (now : Time) (budget : Budget r) :
    Leaves r (planDue r definition now).after := by
  unfold planDue
  split
  · exact .stay rfl rfl (UInt32.le_refl _)
  split
  · rename_i late
    exact (compensationState_leaves _ now (by exact late.2.2)).since rfl rfl rfl
  · split
    · exact (retryState_leaves _ _ _ now).since rfl rfl rfl
    split
    · exact .stay rfl rfl (UInt32.le_refl _)
    · exact .stay rfl rfl (UInt32.le_of_lt budget.succ_attempt)

theorem applyCompletion_leaves (r : Record) (definition : Definition) (failed : c.success = false) :
    Leaves r (applyCompletion r definition c) := by
  unfold applyCompletion
  simp only [failed, Bool.false_eq_true, if_false]
  split
  · split
    · exact .stay rfl rfl (UInt32.le_refl _)
    · rename_i forward
      exact (compensationState_leaves _ _ (by exact forward)).since rfl rfl rfl
  · exact (retryState_leaves _ _ _ _).since rfl rfl rfl

theorem planCompensate_leaves (forward : r.phase = .forward)
    (planned : planCompensate r reason now = .write after) : Leaves r after := by
  obtain ⟨-, -, rfl⟩ := planCompensate_write planned
  exact (compensationState_leaves reason now (by exact forward)).since rfl rfl rfl

theorem lateStepState_budget (c : Completion) (step : Int) (budget : Budget r) :
    Budget (lateStepState r c step) := by
  unfold lateStepState
  split
  · exact .zero (nextCompensation_attempt _ _)
  · exact ⟨budget.bound, budget.left, budget.reset⟩

theorem planResume_attempt (planned : planResume r defined request deadline = .ok after) :
    after.attempt = 0 := by
  obtain ⟨-, rfl | ⟨-, rfl⟩⟩ := planResume_ok planned
  · exact nextCompensation_attempt _ _
  · rfl

theorem planCompensate_attempt (planned : planCompensate r reason now = .write after) :
    after.attempt = 0 := by
  obtain ⟨-, -, rfl⟩ := planCompensate_write planned
  exact compensationState_attempt _ _ _

theorem Budget.written (budget : Budget after) :
    Budget (planTransition before after t).1 := ⟨budget.bound, budget.left, budget.reset⟩

theorem Budget.move [Digest] (budget : Budget st.record)
    (valid : ∀ d, definition = some d → d.validate = .ok ())
    (move : Move st definition event turn) : Budget turn.next.record := by
  cases move with
  | idle => exact budget
  | due live => exact (planDue_budget _ valid budget live).written
  | accept defined accepts => exact (applyCompletion_budget (valid _ defined) _ budget.bound).written
  | late => exact (lateStepState_budget _ _ budget).written
  | alarm => exact budget
  | resume _ planned => exact (Budget.zero (planResume_attempt planned)).written
  | compensate planned => exact (Budget.zero (planCompensate_attempt planned)).written

theorem succ_ne (n : UInt32) : n + 1 ≠ n := by
  intro same
  have values := congrArg UInt32.toNat same
  rw [UInt32.toNat_add] at values
  have one : UInt32.toNat 1 = 1 := rfl
  omega

/-- An attempt `a` of the operation of step `i` was dispatched in the record's current
incarnation, and the record will not dispatch that attempt again. -/
def Spent (st : SagaState) (phase : Phase) (i : Nat) (a : UInt32) : Prop :=
  match phase with
  | .forward => st.record.phase = .forward → st.record.status ≠ .failed →
      (i : Int) < st.record.step ∨ ((i : Int) = st.record.step ∧ a ≤ st.record.attempt)
  | .compensate => st.record.phase = .compensate ∧
      (st.closed .compensate i ∨ ((i : Int) = st.record.step ∧ a ≤ st.record.attempt))

section spent
variable [Digest] {st : SagaState} {after : Record} {t : Transition} {a : UInt32}

theorem Spent.leaves (spent : Spent st phase i a) (none : t.success = none)
    (same : after.identity = st.record.identity) (notFailed : st.record.status ≠ .failed)
    (leaves : Leaves st.record after) : Spent (st.apply after t) phase i a := by
  have named : t.success ≠ some "" := by rw [none]; nofun
  cases phase with
  | forward =>
    intro forward status
    cases leaves with
    | stay samePhase sameStep grown =>
      have before := spent (samePhase.symm.trans forward) notFailed
      change (i : Int) < after.step ∨ ((i : Int) = after.step ∧ a ≤ after.attempt)
      rw [sameStep]
      exact before.imp id (fun here => ⟨here.1, UInt32.le_trans here.2 grown⟩)
    | fail _ failed => exact absurd failed status
    | turn _ backward => exact absurd (forward.symm.trans backward) (by decide)
  | compensate =>
    obtain ⟨backward, before⟩ := spent
    cases leaves with
    | stay samePhase sameStep grown =>
      refine ⟨samePhase.trans backward, before.imp ?_ ?_⟩
      · exact fun closed => (closed_apply same named _ _).mpr (.inl closed)
      · exact fun here => ⟨here.1.trans sameStep.symm, UInt32.le_trans here.2 grown⟩
    | fail forward _ => exact absurd (forward.symm.trans backward) (by decide)
    | turn forward _ => exact absurd (forward.symm.trans backward) (by decide)

/-- An accepted success moves on: forward to a later step, backward past an operation
that is now closed. -/
theorem Spent.accept (spent : Spent st phase i a) (ledger : Ledger st) (definition : Definition)
    (accepts : Accepts st c) (succeeded : c.success = true) :
    Spent (st.apply (applyCompletion st.record definition c)
      { cause := .result, receipt := some c }) phase i a := by
  obtain ⟨operation, live⟩ := accept_live ledger.placed accepts.verdict
  have notFailed : st.record.status ≠ .failed := fun failed => by rw [failed] at live; contradiction
  have success : Transition.success { cause := .result, receipt := some c } =
      some (st.operation st.record.phase st.record.step.toNat) := by
    simp [Transition.success, succeeded, operation, ledger.current live]
  cases here : st.record.phase with
  | forward =>
    rw [applyCompletion_forward definition succeeded here]
    cases phase with
    | compensate => exact absurd (here.symm.trans spent.1) (by decide)
    | forward =>
      intro forward _
      have before := spent here notFailed
      obtain step | stopped := forwardSuccess_step (Saga.succeeded st.record c) definition c.completedAt
      · change (i : Int) < (forwardSuccess _ _ _).step ∨ _
        rw [step]
        change (i : Int) < st.record.step + 1 ∨ _
        omega
      · exact absurd (forward.symm.trans stopped) (by decide)
  | compensate =>
    have same := applyCompletion_compensate definition succeeded here
    obtain ⟨identity, backward, -, -⟩ := compensateSuccess_frame (Saga.succeeded st.record c) c.completedAt
    rw [← same] at identity backward
    have closed (j : Nat) := closed_apply (t := { cause := .result, receipt := some c }) identity
      (by rw [success]; simp [operation_ne_empty]) .compensate j
    cases phase with
    | forward => exact fun forward => absurd (forward.symm.trans backward) (by decide)
    | compensate =>
      refine ⟨backward, .inl ((closed i).mpr ?_)⟩
      obtain done | ⟨current, -⟩ := spent.2
      · exact .inl done
      · refine .inr ?_
        rw [success, here, ← current, Int.toNat_natCast]

omit [Digest] in
/-- A backward record without an open operation that does not wait for an operator has
dispatched nothing since it reached its operation. -/
theorem Ledger.undispatched (ledger : Ledger st) (budget : Budget st.record)
    (backward : st.record.phase = .compensate) (idle : openOperation st.record = "")
    (running : st.record.status ≠ .manualRequired) : st.record.attempt = 0 := by
  have standing := ledger.placed.standing
  unfold Standing at standing
  unfold openOperation at idle
  cases status : st.record.status <;> simp only [status] at standing idle
  case waiting => exact absurd (standing.1.symm.trans idle) (operationKey_ne_empty _ _ _ _)
  case pending => exact absurd (standing.1.1.symm.trans backward) (by decide)
  case completed => exact absurd (standing.1.symm.trans backward) (by decide)
  case failed => exact absurd (standing.1.symm.trans backward) (by decide)
  case manualRequired => exact absurd status running
  case compensated => exact budget.reset status
  case compensating =>
    split at idle
    · exact absurd idle (operationKey_ne_empty _ _ _ _)
    · rename_i none
      exact UInt32.toNat_inj.mp (by have := mt UInt32.lt_iff_toNat_lt.mpr none; simpa using this)

theorem Spent.late (spent : Spent st phase i a) (positive : 0 < a) (ledger : Ledger st)
    (budget : Budget st.record) (abandoned : Abandoned st c tomb)
    (forward : lateForwardStep st.record c.idempotencyKey = some step) :
    Spent (st.apply (lateStepState st.record c step)
      { cause := .lateSuccess, receipt := some c }) phase i a := by
  obtain ⟨j, -, named, -⟩ := ledger.late_step abandoned forward
  have identity := (lateStepState_frame st.record c step).1
  have kept (closed : st.closed .compensate i) : (st.apply (lateStepState st.record c step)
      { cause := .lateSuccess, receipt := some c }).closed .compensate i := by
    refine (closed_apply identity ?_ _ _).mpr (.inl closed)
    simp [Transition.success, abandoned.success, named, operation_ne_empty]
  by_cases idle : openOperation st.record = "" ∧ st.record.status ≠ .manualRequired
  · have backward : (lateStepState st.record c step).phase = .compensate := by
      unfold lateStepState
      rw [if_pos idle]
      exact nextCompensation_phase _ _
    cases phase with
    | forward => exact fun forward => absurd (forward.symm.trans backward) (by decide)
    | compensate =>
      obtain ⟨before, closed | ⟨-, early⟩⟩ := spent
      · exact ⟨backward, .inl (kept closed)⟩
      · rw [ledger.undispatched budget before idle.1 idle.2] at early
        exact absurd positive (UInt32.not_lt.mpr early)
  · have position : (lateStepState st.record c step).phase = st.record.phase ∧
        (lateStepState st.record c step).status = st.record.status ∧
        (lateStepState st.record c step).step = st.record.step ∧
        (lateStepState st.record c step).attempt = st.record.attempt := by
      unfold lateStepState
      rw [if_neg idle]
      exact ⟨rfl, rfl, rfl, rfl⟩
    obtain ⟨samePhase, sameStatus, sameStep, sameAttempt⟩ := position
    cases phase with
    | forward =>
      intro forward status
      change (i : Int) < (lateStepState st.record c step).step ∨
        ((i : Int) = (lateStepState st.record c step).step ∧
          a ≤ (lateStepState st.record c step).attempt)
      rw [sameStep, sameAttempt]
      exact spent (samePhase.symm.trans forward) (sameStatus ▸ status)
    | compensate =>
      refine ⟨samePhase.trans spent.1, spent.2.imp kept fun here => ?_⟩
      change (i : Int) = (lateStepState st.record c step).step ∧
        a ≤ (lateStepState st.record c step).attempt
      rw [sameStep, sameAttempt]
      exact here

/-- No move of the same incarnation makes a spent attempt dispatchable again. -/
theorem Spent.move (spent : Spent st phase i a) (positive : 0 < a) (ledger : Ledger st)
    (budget : Budget st.record) (move : Move st definition event turn)
    (same : turn.next.record.incarnation = st.record.incarnation) :
    Spent turn.next phase i a := by
  cases move with
  | idle => exact spent
  | due live =>
    have notFailed : st.record.status ≠ .failed := fun failed => by rw [failed] at live; contradiction
    exact spent.leaves rfl (planDue_quiet _ _ _).identity notFailed (planDue_leaves _ _ budget)
  | @accept c d _ accepts =>
    by_cases succeeded : c.success = true
    · exact spent.accept ledger d accepts succeeded
    have failed := Bool.eq_false_iff.mpr succeeded
    have live := (accept_live ledger.placed accepts.verdict).2
    refine spent.leaves (by simp [Transition.success, failed])
      (applyCompletion_quiet _ _ failed).identity ?_ (applyCompletion_leaves _ _ failed)
    intro stopped
    rw [stopped] at live
    contradiction
  | late abandoned forward => exact spent.late positive ledger budget abandoned forward
  | @alarm c tomb incarnation abandoned =>
    cases phase with
    | forward => exact spent
    | compensate =>
      refine ⟨spent.1, spent.2.imp (fun closed => ?_) id⟩
      exact (alarm_closed abandoned.found _).mpr closed
  | resume _ planned =>
    exact absurd same (succ_ne _)
  | @compensate reason clock now after planned =>
    change (planTransition _ _ _).1.incarnation = _ at same
    cases phase' : st.record.phase with
    | compensate =>
      simp only [planTransition, phase', and_self, or_true, if_true] at same
      exact absurd same (succ_ne _)
    | forward =>
      refine spent.leaves rfl (planCompensate_quiet planned).identity ?_
        (planCompensate_leaves phase' planned)
      intro failed
      have standing := ledger.placed.standing
      simp only [Standing, failed] at standing
      simp [planCompensate, failed, standing] at planned

end spent

/-- The command of a dispatch is the next attempt of the record's operation. -/
theorem planDue_command (dispatched : (planDue r definition now).command = some command) :
    ∃ d step, definition = some d ∧ stepFor r d = some step ∧ r.status ≠ .waiting ∧
      planDue r definition now = dispatchPlan r step now ∧
      (dispatchPlan r step now).command = some command := by
  unfold planDue at dispatched ⊢
  split at dispatched
  · contradiction
  rename_i d
  split at dispatched
  · contradiction
  rename_i inTime
  split at dispatched
  · contradiction
  rename_i notWaiting
  split at dispatched
  · contradiction
  rename_i step found
  refine ⟨d, step, rfl, found, notWaiting, ?_, dispatched⟩
  simp only [inTime, notWaiting, if_false]

/-- A dispatch of the life: its ID is minted from the operation, the incarnation and
the attempt, and the attempt is spent while the incarnation lasts. -/
structure Minted (st : SagaState) (command : Command) (incarnation : UInt32) : Prop where
  nonneg : 0 ≤ command.step
  operation : command.idempotencyKey = st.operation command.phase command.step.toNat
  id : command.id = commandID command.idempotencyKey incarnation command.attempt
  positive : 0 < command.attempt
  past : incarnation ≤ st.record.incarnation
  spent : incarnation = st.record.incarnation →
    Spent st command.phase command.step.toNat command.attempt

structure Issued (life : Life) : Prop where
  ledger : Ledger life.saga
  budget : Budget life.saga.record
  minted : ∀ d ∈ life.dispatches, Minted life.saga d.1 d.2
  unique : (life.dispatches.map (fun d => d.1.id)).Nodup

section lives
variable [Digest]

theorem move_identity (move : Move st definition event turn) :
    turn.next.record.identity = st.record.identity := by
  have progress := move.progress
  generalize turn.next.record = next at progress
  cases progress with
  | quiet quiet => exact quiet.identity
  | ahead => exact (forwardSuccess_frame _ _ _).1
  | back => exact (compensateSuccess_frame _ _).1
  | late => exact (lateStepState_frame _ _ _).1

theorem Minted.move (minted : Minted st command incarnation) (ledger : Ledger st)
    (budget : Budget st.record) (move : Move st definition event turn)
    (kept : st.record.incarnation ≤ turn.next.record.incarnation) :
    Minted turn.next command incarnation := by
  refine ⟨minted.nonneg, ?_, minted.id, minted.positive, UInt32.le_trans minted.past kept, ?_⟩
  · rw [operation_of_identity (move_identity move)]
    exact minted.operation
  · intro current
    have same : turn.next.record.incarnation = st.record.incarnation :=
      UInt32.le_antisymm (current ▸ minted.past) kept
    exact (minted.spent (current.trans same)).move minted.positive ledger budget move same

omit [Digest] in
theorem dispatch_fresh (ledger : Ledger st) (budget : Budget st.record)
    (live : st.record.status.terminal = false) (minted : Minted st command incarnation) :
    command.id ≠ commandID (currentOperation st.record) st.record.incarnation
      (st.record.attempt + 1) := by
  intro same
  rw [minted.id, minted.operation, ledger.current live] at same
  obtain ⟨⟨phase, step⟩, current, attempt⟩ := commandID_injective same
  have spent := minted.spent current
  rw [phase, step, attempt] at spent
  have nonneg := ledger.placed.step_nonneg live
  have index : (st.record.step.toNat : Int) = st.record.step := Int.toNat_of_nonneg nonneg
  have later : ¬ st.record.attempt + 1 ≤ st.record.attempt :=
    UInt32.not_le.mpr budget.succ_attempt
  rcases ledger.placed.live live with ⟨ahead, -⟩ | behind
  · rw [ahead.1] at spent
    have notFailed : st.record.status ≠ .failed := fun failed => by rw [failed] at live; contradiction
    rcases spent ahead.1 notFailed with before | here
    · omega
    · exact later here.2
  · rw [behind.1] at spent
    rcases spent.2 with closed | here
    · have held : InEffect st.record st.record.step.toNat := by
        unfold InEffect
        rcases behind.2 with last | last <;> omega
      exact ((ledger.effective _).mpr held).2 closed
    · exact later here.2

theorem dispatch_minted (ledger : Ledger st) (budget : Budget st.record)
    (move : Move st definition event turn) (dispatched : turn.command = some command) :
    st.record.status.terminal = false ∧ Minted turn.next command st.record.incarnation ∧
      command.id = commandID (currentOperation st.record) st.record.incarnation
        (st.record.attempt + 1) := by
  cases move with
  | @due now live =>
    obtain ⟨d, step, -, -, -, plan, minted⟩ := planDue_command dispatched
    cases minted
    have operation (phase : Phase) (i : Nat) : (st.apply (planDue st.record definition now).after
        { cause := (planDue st.record definition now).cause }).operation phase i =
          st.operation phase i :=
      operation_of_identity (planDue_quiet st.record definition now).identity phase i
    have nonneg := ledger.placed.step_nonneg live
    have index : (st.record.step.toNat : Int) = st.record.step := Int.toNat_of_nonneg nonneg
    have kept : (planDue st.record definition now).cause = .dispatch := by rw [plan]; rfl
    refine ⟨live, ⟨nonneg, ?_, rfl, ?_, ?_, fun _ => ?_⟩, rfl⟩
    · rw [operation]
      exact ledger.current live
    · have grows := budget.succ_attempt
      exact UInt32.lt_of_le_of_lt (UInt32.le_iff_toNat_le.mpr (Nat.zero_le _)) grows
    · simp [planTransition, kept]
    · have after : (st.apply (planDue st.record definition now).after
          { cause := (planDue st.record definition now).cause }).record.phase = st.record.phase ∧
          (st.apply (planDue st.record definition now).after
            { cause := (planDue st.record definition now).cause }).record.step = st.record.step ∧
          (st.apply (planDue st.record definition now).after
            { cause := (planDue st.record definition now).cause }).record.attempt =
              st.record.attempt + 1 := by
        rw [plan]
        exact ⟨rfl, rfl, rfl⟩
      obtain ⟨phase, here, attempt⟩ := after
      cases same : st.record.phase with
      | forward =>
        refine fun _ _ => .inr ⟨?_, ?_⟩
        · rw [here, index]
        · rw [attempt]
          exact UInt32.le_refl _
      | compensate =>
        refine ⟨phase.trans same, .inr ⟨?_, ?_⟩⟩
        · rw [here, index]
        · rw [attempt]
          exact UInt32.le_refl _
  | _ => contradiction

theorem Issued.start (started : newStartRecord request saga lifecycle now = .ok record) :
    Issued (Life.start record) := by
  have audit := Audit.start { type := "", version := 0, steps := [] } started
  exact ⟨audit.ledger, .zero (newStartRecord_fresh started).attempt, nofun, List.nodup_nil⟩

theorem Issued.step (retention : Duration) (definition : ValidDefinition) (life : Life)
    (input : Bool × Event)
    (kept : life.saga.record.incarnation ≤
      (life.step retention definition.toDefinition input).saga.record.incarnation)
    (issued : Issued life) : Issued (life.step retention definition.toDefinition input) := by
  have move := turn_move retention life.saga
    (if input.1 then some definition.toDefinition else none) input.2
  have valid (d : Definition)
      (same : (if input.1 then some definition.toDefinition else none) = some d) :
      d.validate = .ok () := by
    split at same
    · exact some.inj same ▸ definition.valid
    · contradiction
  have old (d) (member : d ∈ life.dispatches) :=
    (issued.minted d member).move issued.ledger issued.budget move kept
  refine ⟨(issued.ledger.closing move).1, issued.budget.move valid move, ?_, ?_⟩
  · intro d member
    rcases List.mem_append.mp member with earlier | new
    · exact old d earlier
    · obtain ⟨command, dispatched, rfl⟩ := map_eq_some_iff.mp (mem_toList.mp new)
      exact (dispatch_minted issued.ledger issued.budget move dispatched).2.1
  · change ((life.dispatches ++ toList _).map _).Nodup
    cases dispatched : (life.saga.turn retention
        (if input.1 then some definition.toDefinition else none) input.2).command with
    | none => simpa using issued.unique
    | some command =>
      obtain ⟨live, -, id⟩ := dispatch_minted issued.ledger issued.budget move dispatched
      have absent : command.id ∉ life.dispatches.map (fun d => d.1.id) := by
        intro member
        obtain ⟨d, earlier, same⟩ := List.mem_map.mp member
        exact dispatch_fresh issued.ledger issued.budget live (issued.minted d earlier)
          (same.trans id)
      simpa using List.Nodup.concat absent issued.unique

/-- Dispatch identities never repeat. Along every life in which the incarnation does
not wrap, the dispatched commands have distinct IDs, and the incarnation read from an
ID is the record's at that dispatch. -/
theorem dispatch_identities (retention : Duration) (definition : ValidDefinition)
    {request : StartRequest} {id lifecycle : String} {now : Time} {record : Record}
    (started : newStartRecord request id lifecycle now = .ok record)
    {inputs : List (Bool × Event)}
    (noWrap : Along (Life.step retention definition.toDefinition)
      (fun life input => life.saga.record.incarnation ≤
        (life.step retention definition.toDefinition input).saga.record.incarnation)
      (Life.start record) inputs) :
    let life := run (Life.step retention definition.toDefinition) (Life.start record) inputs
    (life.dispatches.map (fun d => d.1.id)).Nodup ∧
      ∀ d ∈ life.dispatches, commandIDIncarnation d.1.idempotencyKey d.1.id = d.2 := by
  intro life
  have issued : Issued life :=
    invariant_along (Issued.step retention definition) (Issued.start started) noWrap
  refine ⟨issued.unique, fun d member => ?_⟩
  rw [(issued.minted d member).id, commandIDIncarnation_commandID]

end lives

/-- The sample saga dispatches its step and the compensation of its late success. -/
theorem dispatch_identities_late_success :
    (Sample.life.dispatches.map (fun d => d.1.id)) = ["a42:L:1:0:1", "a42:L:2:0:1"] ∧
      (Sample.life.dispatches.map (fun d => d.1.id)).Nodup := by
  have started : @newStartRecord Digest.tail Sample.request "a42" "L" Sample.now =
      .ok Sample.record := by decide
  have identities := @dispatch_identities Digest.tail 0 ⟨Sample.definition, by decide⟩ _ _ _ _ _
    started Sample.inputs (by decide)
  exact ⟨by decide, identities.1⟩

end Roost.Saga
