import RoostCore.Saga.Backoff
import RoostCore.Saga.Traces

/-! The fields of a record between two transitions: what every write fills in, what
goes with the status, and how large the counters and the texts grow. -/
namespace Roost.Saga
open Go Option

/-- What every write fills in. -/
structure Stamped (r : Record) : Prop where
  version : r.version ≠ 0
  updated : r.updatedAt ≠ 0
  step : 0 ≤ r.step
  error : r.lastError.utf8ByteSize ≤ 4096

/-- The fields that go with the status. -/
structure Filled (r : Record) : Prop extends Stamped r where
  next : r.status.terminal = false → r.nextRunAt ≠ 0
  idle : r.status ≠ .waiting → r.operationKey = "" ∧ r.commandID = ""
  waits : r.status = .waiting → r.waitingFields = true

theorem backoff_nonneg (key : String) (attempt : UInt32) (minimum maximum : Duration) :
    0 ≤ backoff key attempt minimum maximum := by
  have positive := pause_pos attempt minimum maximum
  have half := Int.ediv_nonneg positive.le (b := 2) (by decide)
  rw [backoff_eq]
  exact half.trans (jittered_between _ positive).1

section filled
variable {r : Record} {now : Time}

theorem nextCompensation_filled (stamped : Stamped r) (time : now ≠ 0) :
    Filled (nextCompensation r now) := by
  obtain ⟨version, updated, step, error⟩ := stamped
  unfold nextCompensation
  dsimp only
  split_ifs
  · exact ⟨⟨version, updated, by dsimp only; omega, error⟩, fun _ => time, fun _ => ⟨rfl, rfl⟩, nofun⟩
  · exact ⟨⟨version, updated, by dsimp only; omega, error⟩, fun _ => time, fun _ => ⟨rfl, rfl⟩, nofun⟩
  · exact ⟨⟨version, updated, step, error⟩, nofun, fun _ => ⟨rfl, rfl⟩, nofun⟩

theorem compensationState_filled (version : r.version ≠ 0) (step : 0 ≤ r.step) (time : now ≠ 0)
    (short : reason.utf8ByteSize ≤ 4096) : Filled (compensationState r reason now) := by
  unfold compensationState
  dsimp only
  split
  · exact ⟨⟨version, time, step, short⟩, nofun, fun _ => ⟨rfl, rfl⟩, nofun⟩
  · exact nextCompensation_filled ⟨version, time, step, short⟩ time

variable (definition : Definition)

theorem retryState_filled (version : r.version ≠ 0) (step : 0 ≤ r.step)
    (time : 0 < now) (short : reason.utf8ByteSize ≤ 4096) :
    Filled (retryState r definition reason now) := by
  have time' : now ≠ 0 := Int.ne_of_gt time
  unfold retryState
  dsimp only
  split
  · exact ⟨⟨version, time', step, short⟩, nofun, fun _ => ⟨rfl, rfl⟩, nofun⟩
  rename_i s found
  split
  · refine ⟨⟨version, time', step, short⟩, fun _ => ?_, fun _ => ⟨rfl, rfl⟩, fun waiting => ?_⟩
    · have := backoff_nonneg r.id r.attempt s.backoffMin s.backoffMax
      exact Int.ne_of_gt (Int.lt_of_lt_of_le time (Int.le_add_of_nonneg_right this))
    · split at waiting <;> contradiction
  · split
    · exact ⟨⟨version, time', step, short⟩, nofun, fun _ => ⟨rfl, rfl⟩, nofun⟩
    · exact compensationState_filled version step time' short

theorem planResume_filled (filled : Filled r) (time : request.now ≠ 0)
    (planned : planResume r defined request deadline = .ok after) : Filled after := by
  have stamped : Stamped (resumed r request deadline) :=
    ⟨Nat.succ_ne_zero _, time, filled.step, Nat.zero_le _⟩
  obtain ⟨-, rfl | ⟨-, rfl⟩⟩ := planResume_ok planned
  · exact nextCompensation_filled stamped time
  · exact ⟨⟨stamped.version, time, filled.step, Nat.zero_le _⟩, fun _ => time, fun _ => ⟨rfl, rfl⟩, nofun⟩

theorem planCompensate_filled (filled : Filled r) (time : now ≠ 0)
    (short : reason.utf8ByteSize ≤ 4096)
    (planned : planCompensate r reason now = .write after) : Filled after := by
  obtain ⟨-, -, rfl⟩ := planCompensate_write planned
  exact compensationState_filled (Nat.succ_ne_zero _) filled.step time short

theorem forwardSuccess_filled (stamped : Stamped r) (time : now ≠ 0)
    (idle : r.operationKey = "" ∧ r.commandID = "") : Filled (forwardSuccess r definition now) := by
  obtain ⟨version, updated, step, error⟩ := stamped
  have later : 0 ≤ r.step + 1 := Int.le_add_one step
  unfold forwardSuccess
  dsimp only
  split
  · exact compensationState_filled version later time (by decide)
  split
  · exact ⟨⟨version, updated, later, error⟩, nofun, fun _ => idle, nofun⟩
  · exact ⟨⟨version, updated, later, error⟩, fun _ => time, fun _ => idle, nofun⟩

theorem compensateSuccess_filled (stamped : Stamped r) (time : now ≠ 0) :
    Filled (compensateSuccess r now) := by
  obtain ⟨version, updated, step, error⟩ := stamped
  unfold compensateSuccess
  split <;> exact nextCompensation_filled ⟨version, updated, step, error⟩ time

theorem applyCompletion_filled (filled : Filled r)
    (time : 0 < c.completedAt) (short : c.error.utf8ByteSize ≤ 4096) :
    Filled (applyCompletion r definition c) := by
  have time' : c.completedAt ≠ 0 := Int.ne_of_gt time
  have version : r.version + 1 ≠ 0 := Nat.succ_ne_zero _
  have success : Stamped (succeeded r c) := ⟨version, time', filled.step, Nat.zero_le _⟩
  unfold applyCompletion
  split
  · split
    · exact forwardSuccess_filled definition success time' ⟨rfl, rfl⟩
    · exact compensateSuccess_filled success time'
  · split
    · split
      · exact ⟨⟨version, time', filled.step, filled.error⟩, nofun, fun _ => ⟨rfl, rfl⟩, nofun⟩
      · exact compensationState_filled version filled.step time' short
    · exact retryState_filled definition version filled.step time short

theorem lateStepState_filled {i : Nat} (filled : Filled r) (time : c.completedAt ≠ 0)
    (small : i < 256) : Filled (lateStepState r c i) := by
  have version : r.version + 1 ≠ 0 := Nat.succ_ne_zero _
  unfold lateStepState
  split
  · refine nextCompensation_filled ⟨version, time, filled.step, ?_⟩ time
    have digits : (toString (i : Int)).utf8ByteSize ≤ 3 := repr_size (by decide) (by omega)
    have start : ("step " : String).utf8ByteSize = 5 := by decide
    have rest : (" took effect after the coordinator abandoned it" : String).utf8ByteSize = 47 := by
      decide
    simp only [String.utf8ByteSize_append, start, rest]
    omega
  · exact ⟨⟨version, time, filled.step, filled.error⟩, filled.next, filled.idle, filled.waits⟩

end filled

/-- The identity of a saga that a partition started: its ID is a digest. -/
structure Identity.Valid (i : Identity) : Prop where
  token : validSubjectToken i.id 128 = true
  size : i.id.utf8ByteSize = 32
  lifecycle : validLifecycle i.lifecycle = true
  type : validName i.type 128 = true
  version : i.definitionVersion ≠ 0
  businessKey : validName i.businessKey 512 = true
  created : i.createdAt ≠ 0

theorem Identity.Valid.lifecycle_size {i : Identity} (valid : i.Valid) :
    i.lifecycle.utf8ByteSize ≤ 64 := by
  have bound := valid.lifecycle
  simp only [validLifecycle, validSubjectToken, Bool.and_eq_true, decide_eq_true_eq] at bound
  exact bound.1.1.2

theorem validName_size (valid : validName s limit = true) : s.utf8ByteSize ≤ limit := by
  simp only [validName, Bool.and_eq_true, decide_eq_true_eq] at valid
  exact valid.2

/-- The counters stay within the longest definition, and a record that may still move
forward is short of it. -/
structure Reach (r : Record) : Prop where
  completed : r.completedSteps ≤ 256
  late : r.lateStep ≤ 256
  ahead : r.phase = .forward → r.status ≠ .completed → r.completedSteps < 256

theorem Reach.step (reach : Reach r) (placed : Placed r) (live : r.status.terminal = false) :
    r.step.toNat < 256 := by
  have unfinished : r.status ≠ .completed := fun done => by rw [done] at live; contradiction
  have completed := reach.completed
  have late := reach.late
  rcases placed.live live with ⟨ahead, -⟩ | behind
  · have := reach.ahead ahead.1 unfinished
    have := ahead.2
    omega
  · rcases behind.2 with last | last <;> omega

theorem operationKey_size (id lifecycle : String) (phase : Phase) {i : Nat} (small : i < 256) :
    (operationKey id lifecycle phase i).utf8ByteSize ≤
      id.utf8ByteSize + lifecycle.utf8ByteSize + 7 := by
  have digits : (toString (i : Int)).utf8ByteSize ≤ 3 := repr_size (by decide) (by omega)
  have code : (toString phase.code).utf8ByteSize = 1 := by cases phase <;> decide
  have colon : (":" : String).utf8ByteSize = 1 := by decide
  simp only [operationKey, String.utf8ByteSize_append, colon, code]
  omega

theorem commandID_size (operation : String) (incarnation attempt : UInt32) :
    (commandID operation incarnation attempt).utf8ByteSize ≤ operation.utf8ByteSize + 23 := by
  have digits (n : UInt32) : (toString n.toNat).utf8ByteSize ≤ 10 :=
    repr_size (by decide) (Nat.lt_trans n.toNat_lt (by decide))
  have colon : (":" : String).utf8ByteSize = 1 := by decide
  have opened : (":r" : String).utf8ByteSize = 2 := by decide
  have := digits incarnation
  have := digits attempt
  unfold commandID
  split <;> simp only [String.utf8ByteSize_append, colon, opened] <;> omega

theorem commandID_ne_empty (operation : String) (incarnation attempt : UInt32) :
    commandID operation incarnation attempt ≠ "" := by
  intro empty
  have texts := congrArg String.toList empty
  simp [commandID_append] at texts

section dispatch
variable {r : Record}

/-- The keys of an attempt of a live record, within the limits of the wire. -/
theorem attempt_size (valid : r.identity.Valid) (placed : Placed r) (reach : Reach r)
    (live : r.status.terminal = false) (attempt : UInt32) :
    (currentOperation r).utf8ByteSize ≤ 192 ∧
      (commandID (currentOperation r) r.incarnation attempt).utf8ByteSize ≤ 192 := by
  have key := operationKey_size r.id r.lifecycle r.phase (reach.step placed live)
  rw [← currentOperation_nat (placed.step_nonneg live)] at key
  have command := commandID_size (currentOperation r) r.incarnation attempt
  have id : r.id.utf8ByteSize = 32 := valid.size
  have lifecycle : r.lifecycle.utf8ByteSize ≤ 64 := valid.lifecycle_size
  omega

theorem planDue_filled (filled : Filled r) (valid : r.identity.Valid) (placed : Placed r)
    (reach : Reach r) (budget : Budget r)
    (definitions : ∀ d, definition = some d → d.validate = .ok ())
    (live : r.status.terminal = false) (time : 0 < now) :
    Filled (planDue r definition now).after := by
  have time' : now ≠ 0 := Int.ne_of_gt time
  have version : r.version + 1 ≠ 0 := Nat.succ_ne_zero _
  unfold planDue
  split
  · refine ⟨⟨version, time', filled.step, ?_⟩, nofun, fun _ => ⟨rfl, rfl⟩, nofun⟩
    have digits : (toString r.definitionVersion.toNat).utf8ByteSize ≤ 10 :=
      repr_size (by decide) (Nat.lt_trans r.definitionVersion.toNat_lt (by decide))
    have name : r.type.utf8ByteSize ≤ 128 := validName_size valid.type
    have start : ("definition not registered: " : String).utf8ByteSize = 27 := by decide
    have slash : ("/" : String).utf8ByteSize = 1 := by decide
    simp only [String.utf8ByteSize_append, start, slash]
    omega
  · rename_i d
    split
    · exact compensationState_filled version filled.step time' (by decide)
    split
    · exact retryState_filled d version filled.step time (by decide)
    rename_i notWaiting
    split
    · have short : ("invalid saga step" : String).utf8ByteSize ≤ 4096 := by decide
      exact ⟨⟨version, time', filled.step, short⟩, nofun, fun _ => filled.idle notWaiting, nofun⟩
    rename_i step found
    have sizes := attempt_size valid placed reach live (r.attempt + 1)
    have timeout := Definition.step_valid (definitions d rfl) step (stepFor_mem found)
    simp only [Step.valid, Bool.and_eq_true, decide_eq_true_eq] at timeout
    refine ⟨⟨version, time', filled.step, filled.error⟩, fun _ => ?_, fun idle => ?_, fun _ => ?_⟩
    · exact Int.ne_of_gt (Int.add_pos time timeout.1.1.1.1.2)
    · exact absurd rfl idle
    · have positive : 0 < r.attempt + 1 := UInt32.lt_of_le_of_lt
        (UInt32.le_iff_toNat_le.mpr (Nat.zero_le _)) budget.succ_attempt
      have nonempty : currentOperation r ≠ "" := operationKey_ne_empty _ _ _ _
      simp [dispatchPlan, Record.waitingFields, sizes, positive, nonempty, commandID_ne_empty]

end dispatch

/-- A success short of the last step leaves the record pending at a step of the
definition. -/
theorem forwardSuccess_ahead (definition : Definition) (nonneg : 0 ≤ r.step)
    (forward : (forwardSuccess r definition now).phase = .forward)
    (unfinished : (forwardSuccess r definition now).status ≠ .completed) :
    r.step + 1 < definition.steps.length := by
  unfold forwardSuccess compensationState at forward unfinished
  dsimp only at forward unfinished
  split at forward
  · split at forward
    · rename_i none
      exact absurd none.1 (by omega)
    · exact absurd (forward.symm.trans (nextCompensation_phase _ now)) (by decide)
  · rename_i inTime
    rw [if_neg inTime] at unfinished
    split at unfinished
    · exact absurd rfl unfinished
    · exact Int.not_le.mp (by assumption)

/-- Every tombstone is of an operation of the first 256 steps. -/
def Within (st : SagaState) : Prop :=
  ∀ key tomb, st.ops.get key = some tomb → ∃ phase i, i < 256 ∧ key = st.operation phase i

/-- Receipts are the digests of results with a command. -/
def Receipted (st : SagaState) : Prop :=
  ∀ command digest, st.receipts.get command = some digest →
    command ≠ "" ∧ digest.utf8ByteSize = 64

/-- Without a late step there is no late payload. -/
def Unburdened (r : Record) : Prop := r.lateStep = 0 → r.lateData = []

section moves
variable [Digest] {st : SagaState}

theorem Within.apply (within : Within st) (placed : Placed st.record) (reach : Reach st.record)
    (same : after.identity = st.record.identity)
    (named : ∀ key, t.success = some key → ∃ phase i, i < 256 ∧ key = st.operation phase i) :
    Within (st.apply after t) := by
  intro key tomb found
  have operation (phase : Phase) (i : Nat) :
      (st.apply after t).operation phase i = st.operation phase i :=
    operation_of_identity (by rw [apply_record]; exact same) phase i
  simp only [operation]
  rcases apply_ops st after t found with ⟨prior, known⟩ | success | ⟨opened, nonempty⟩
  · exact within key prior known
  · exact named key success
  rcases placed.openOperation with none | ⟨current, live⟩
  · exact absurd (opened.trans none) nonempty
  · refine ⟨st.record.phase, _, reach.step placed live, opened.trans (current.trans ?_)⟩
    exact currentOperation_nat (placed.step_nonneg live)

theorem Within.move (within : Within st) (placed : Placed st.record) (reach : Reach st.record)
    (move : Move st definition event turn) : Within turn.next := by
  have same := move_identity move
  cases move with
  | idle => exact within
  | due | resume | compensate => exact within.apply placed reach same nofun
  | @accept c d defined accepts =>
    refine within.apply placed reach same fun key success => ?_
    obtain ⟨operation, live⟩ := accept_live placed accepts.verdict
    simp only [Transition.success] at success
    split at success
    · refine ⟨st.record.phase, _, reach.step placed live, ?_⟩
      rw [← some.inj success, operation]
      exact currentOperation_nat (placed.step_nonneg live)
    · contradiction
  | @late c tomb step abandoned forward =>
    refine within.apply placed reach same fun key success => ?_
    simp only [Transition.success, abandoned.success, if_true] at success
    exact some.inj success ▸ within _ _ abandoned.found
  | @alarm c tomb incarnation abandoned =>
    intro key other found
    simp only [SagaState.alarm, Table.get_set] at found
    split at found
    · rename_i here
      exact within key tomb (here ▸ abandoned.found)
    · exact within key other found

theorem Receipted.move (receipted : Receipted st) (move : Move st definition event turn)
    (results : ∀ c, event = .result c → c.commandID ≠ "") : Receipted turn.next := by
  have written {after : Record} {cause : TransitionCause} {c : Completion}
      (named : c.commandID ≠ "") :
      Receipted (st.apply after { cause, receipt := some c }) := by
    intro command digest found
    change (st.receipts.set c.commandID (receiptDigest c)).get command = some digest at found
    rw [Table.get_set] at found
    split at found
    · rename_i here
      rw [← some.inj found]
      exact ⟨here ▸ named, Digest.receipt_size _ _ _ _ _ _ _⟩
    · exact receipted command digest found
  cases move with
  | idle | due | resume | compensate | alarm => exact receipted
  | accept | late => exact written (results _ rfl)

theorem Unburdened.move (free : Unburdened st.record) (placed : Placed st.record)
    (move : Move st definition event turn) : Unburdened turn.next.record := by
  have progress := move.progress
  generalize turn.next.record = next at progress
  intro none
  cases progress with
  | quiet quiet => exact (congrArg Prod.snd quiet.payloads).trans (free (quiet.late ▸ none))
  | @ahead c d =>
    refine (congrArg Prod.snd (forwardSuccess_payloads _ d _)).trans (free ?_)
    exact (forwardSuccess_frame (succeeded st.record c) d c.completedAt).2.2.1.symm.trans none
  | @back c =>
    have late := (compensateSuccess_frame (succeeded st.record c) c.completedAt).2.2.2.symm.trans none
    refine (congrArg Prod.snd (compensateSuccess_payloads _ _)).trans ?_
    split
    · rfl
    rename_i notLate
    rw [if_neg notLate] at late
    exact free late
  | @late c tomb step n abandoned forward =>
    have late := (lateStepState_frame st.record c step).2.2.1.symm.trans none
    unfold lateForwardStep at forward
    split at forward
    · split at forward
      · contradiction
      rename_i outside
      split at forward
      · cases forward
        have := placed.counted.completed_nonneg
        omega
      · contradiction
    · contradiction

theorem Reach.move (reach : Reach st.record) (placed : Placed st.record) (within : Within st)
    (definitions : ∀ d, definition = some d → d.validate = .ok ())
    (ledger : Ledger st) (move : Move st definition event turn) : Reach turn.next.record := by
  have progress := move.progress
  generalize turn.next.record = next at progress
  cases progress with
  | quiet quiet still =>
    refine ⟨quiet.completed ▸ reach.completed, quiet.late ▸ reach.late, fun forward unfinished => ?_⟩
    exact quiet.completed ▸ reach.ahead (quiet.forward forward) fun done => unfinished (still placed done)
  | @ahead c d n defined accepts success phase =>
    obtain ⟨-, live⟩ := accept_live placed accepts.verdict
    have bound : d.steps.length ≤ 256 := ValidDefinition.steps_bound ⟨d, definitions d defined⟩
    have small := reach.step placed live
    have nonneg := placed.step_nonneg live
    obtain ⟨-, completed, late, -⟩ := forwardSuccess_frame (succeeded st.record c) d c.completedAt
    change _ = st.record.step + 1 at completed
    refine ⟨by dsimp only; omega, late ▸ reach.late, fun forward unfinished => ?_⟩
    have ahead : st.record.step + 1 < d.steps.length :=
      forwardSuccess_ahead (r := succeeded st.record c) d nonneg forward unfinished
    dsimp only
    omega
  | @back c =>
    obtain ⟨-, backward, completed, late⟩ :=
      compensateSuccess_frame (succeeded st.record c) c.completedAt
    refine ⟨?_, ?_, fun forward => absurd (forward.symm.trans backward) (by decide)⟩
    · rw [completed]
      split
      · exact reach.completed
      · exact Int.le_trans (Int.sub_le_self _ (by decide)) reach.completed
    · rw [late]
      split
      · decide
      · exact reach.late
  | @late c tomb step n abandoned forward =>
    obtain ⟨i, rfl, named, -⟩ := ledger.late_step abandoned forward
    obtain ⟨phase, j, small, same⟩ := within _ _ abandoned.found
    obtain ⟨-, rfl⟩ := operation_inj.mp (named.symm.trans same)
    obtain ⟨-, completed, late, phase⟩ := lateStepState_frame st.record c i
    refine ⟨completed ▸ reach.completed, ?_, fun forward unfinished => ?_⟩
    · dsimp only
      omega
    · refine completed ▸ reach.ahead (phase forward) fun done => unfinished ?_
      have standing := placed.standing
      simp only [Standing, done] at standing
      have left := lateForwardStep_left (by assumption)
      simp [standing.1, done] at left

end moves

end Roost.Saga
