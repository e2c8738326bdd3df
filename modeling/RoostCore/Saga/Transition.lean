import RoostCore.Saga.Identity

/-! The pure state machine of a saga (`transition.go`): from a record, and where
needed a definition, a result and a time, the target record, the operation to
close and the command to dispatch. -/
namespace Roost.Saga
open Go

inductive TransitionCause where
  | dispatch | result | timeout | deadline | definitionMissing | invalidStep
  | manualCompensate | resume | lateSuccess
  deriving DecidableEq, Repr

/-- What a write of the record takes besides its target: why, and the accepted result. -/
structure Transition where
  cause : TransitionCause
  receipt : Option Completion := none

/-- The operation that is still open in the record: one of its attempts may yet
take effect. The empty text stands for none. -/
def openOperation (record : Record) : String :=
  match record.status with
  | .waiting => record.operationKey
  | .pending | .compensating => if 0 < record.attempt then currentOperation record else ""
  | _ => ""

/-- The operation whose success the transition accepts. -/
def Transition.success (t : Transition) : Option String :=
  match t.receipt with
  | some c => if c.success then some c.idempotencyKey else none
  | none => none

/-- The only write of a record. The incarnation of `after` depends on `before` and
the cause alone; the second component is the operation to close. -/
def planTransition (before after : Record) (t : Transition) : Record × String :=
  let written := { after with
    incarnation :=
      if t.cause = .resume ∨ (t.cause = .manualCompensate ∧ before.phase = .compensate) then
        before.incarnation + 1
      else before.incarnation }
  let left := if openOperation before ≠ openOperation written then openOperation before else ""
  (written, t.success.getD left)

def canonicalDeadline (value : Time) : Time :=
  if Time.isZero value then 0 else Time.truncate value millisecond

def prepareStart (request : StartRequest) (maxPayload : Nat) : Except Error StartRequest :=
  let businessKey := trimSpace request.businessKey
  if businessKey = "" ∨ 512 < businessKey.utf8ByteSize ∨ maxPayload < request.data.length then
    .error .invalidRecord
  else
    .ok { request with
      businessKey, deadlineAt := canonicalDeadline request.deadlineAt }

/-- A deadline outside the years 0 to 9999 has no JSON text. -/
def startIntentDigest [Digest] (request : StartRequest) : Except Error String :=
  if Time.marshals request.deadlineAt then
    .ok (Digest.intent request.type request.businessKey request.definitionVersion request.data
      request.deadlineAt)
  else .error .invalidRecord

/-- The first version of a saga: pending at forward step zero and due at once. -/
def newStartRecord [Digest] (request : StartRequest) (id lifecycle : String) (now : Time) :
    Except Error Record := do
  let intentDigest ← startIntentDigest request
  let record : Record := {
    id, type := request.type, definitionVersion := request.definitionVersion,
    businessKey := request.businessKey, startDigest := intentDigest,
    status := .pending, phase := .forward, step := 0, completedSteps := 0, attempt := 0,
    incarnation := 0, lateStep := 0, lateData := [], version := 1, data := request.data,
    lastError := "", operationKey := "", commandID := "", nextRunAt := now,
    deadlineAt := request.deadlineAt, createdAt := now, updatedAt := now,
    startAttempt := "", lifecycle }
  record.validate
  return record

def stepFor (record : Record) (definition : Definition) : Option Step :=
  if record.step < 0 then none else definition.steps[record.step.toNat]?

def compensatingLateStep (record : Record) : Bool :=
  record.phase == .compensate && 0 < record.lateStep && record.step == record.lateStep - 1

/-- The next step to compensate: the one that took effect late, then the completed
prefix from its end. Version, time and error are set by the caller. -/
def nextCompensation (after : Record) (now : Time) : Record :=
  let after := { after with
    phase := .compensate, attempt := 0, commandID := "", operationKey := "" }
  if 0 < after.lateStep then
    { after with status := .compensating, step := after.lateStep - 1, nextRunAt := now }
  else if 0 < after.completedSteps then
    { after with status := .compensating, step := after.completedSteps - 1, nextRunAt := now }
  else
    { after with status := .compensated, nextRunAt := 0 }

/-- Compensation, or failure when no step took effect, of a record whose version
the caller has advanced. -/
def compensationState (after : Record) (reason : String) (now : Time) : Record :=
  let after := { after with
    updatedAt := now, lastError := reason, attempt := 0, commandID := "", operationKey := "" }
  if after.completedSteps = 0 ∧ after.lateStep = 0 then
    { after with status := .failed, nextRunAt := 0 }
  else nextCompensation after now

def beginCompensation (record : Record) (reason : String) (now : Time) : Record :=
  compensationState { record with version := record.version + 1 } reason now

/-- FNV-1a over 32 bits. -/
def fnv32a (bytes : Bytes) : UInt32 :=
  bytes.foldl (fun h b => (h ^^^ b.toUInt32) * 16777619) 2166136261

def binaryPutUint32 (value : UInt32) : Bytes :=
  [(value >>> 24).toUInt8, (value >>> 16).toUInt8, (value >>> 8).toUInt8, value.toUInt8]

/-- The doubling loop of `backoff`, with the number of rounds left. -/
def doubled (maximum : Duration) : Nat → Duration → Duration
  | 0, d => d
  | rounds + 1, d =>
      if d < maximum then
        if maximum / 2 < d then maximum else doubled maximum rounds (d * 2)
      else d

/-- Exponential backoff with a jitter that depends on the saga and the attempt only. -/
def backoff (key : String) (attempt : UInt32) (minimum maximum : Duration) : Duration :=
  let minimum := if minimum ≤ 0 then millisecond else minimum
  let maximum := max minimum maximum
  let d := min (doubled maximum (attempt.toNat - 1) minimum) maximum
  if d ≤ 1 then d
  else
    let half := d / 2
    let sum := fnv32a (key.toUTF8.data.toList ++ binaryPutUint32 attempt)
    half + (sum.toNat : Int) % (d - half + 1)

/-- The next attempt of the current step while its budget lasts, then compensation;
a compensation that used up its budget waits for an operator. -/
def retryState (record : Record) (definition : Definition) (reason : String) (now : Time) :
    Record :=
  let after := { record with
    updatedAt := now, lastError := reason, commandID := "", operationKey := "" }
  match stepFor record definition with
  | none => { after with status := .manualRequired, nextRunAt := 0 }
  | some step =>
      if after.attempt < step.maxAttempts then
        { after with
          status := if after.phase = .forward then .pending else .compensating
          nextRunAt := now + backoff record.id after.attempt step.backoffMin step.backoffMax }
      else if after.phase = .compensate then
        { after with status := .manualRequired, nextRunAt := 0 }
      else compensationState after reason now

def retryOrCompensate (record : Record) (definition : Definition) (reason : String)
    (now : Time) : Record :=
  retryState { record with version := record.version + 1 } definition reason now

structure DuePlan where
  cause : TransitionCause
  after : Record
  command : Option Command := none

def Step.topicFor (step : Step) (phase : Phase) : String :=
  match phase with
  | .forward => step.forwardTopic
  | .compensate =>
      if step.compensateTopic = "" then step.forwardTopic ++ ".compensate"
      else step.compensateTopic

/-- The dispatch exit of `planDue`: the next attempt of the current step. -/
def dispatchPlan (record : Record) (step : Step) (now : Time) : DuePlan :=
  let operation := currentOperation record
  let attempt := record.attempt + 1
  let command := commandID operation record.incarnation attempt
  let deadline := now + step.timeout
  { cause := .dispatch
    after := { record with
      status := .waiting, attempt, version := record.version + 1, updatedAt := now,
      nextRunAt := deadline, operationKey := operation, commandID := command }
    command := some {
      id := command, idempotencyKey := operation, sagaID := record.id, sagaType := record.type,
      definitionVersion := record.definitionVersion, businessKey := record.businessKey,
      step := record.step, stepName := step.name, phase := record.phase, attempt,
      topic := step.topicFor record.phase,
      payload := if compensatingLateStep record then record.lateData else record.data,
      deadlineAt := deadline, createdAt := now, partition := 0 } }

/-- All exits of a due, non-terminal record. `definition` is absent when the
record's version is not registered. -/
def planDue (record : Record) (definition : Option Definition) (now : Time) : DuePlan :=
  match definition with
  | none =>
      { cause := .definitionMissing
        after := { record with
          status := .manualRequired,
          lastError := "definition not registered: " ++ record.type ++ "/" ++
            toString record.definitionVersion.toNat,
          version := record.version + 1, updatedAt := now, nextRunAt := 0, commandID := "",
          operationKey := "" } }
  | some definition =>
      if ¬ Time.isZero record.deadlineAt ∧ ¬ now < record.deadlineAt ∧ record.phase = .forward then
        { cause := .deadline, after := beginCompensation record "saga deadline exceeded" now }
      else if record.status = .waiting then
        { cause := .timeout
          after := retryOrCompensate record definition "step result timeout" now }
      else match stepFor record definition with
      | none =>
          { cause := .invalidStep
            after := { record with
              status := .manualRequired, lastError := "invalid saga step",
              version := record.version + 1, updatedAt := now } }
      | some step => dispatchPlan record step now

/-- Normalises a Resume request; the second component is the new deadline. -/
def prepareResume (request : ResumeRequest) (clock : Time) :
    Except Error (ResumeRequest × Time) :=
  let id := trimSpace request.id
  if ¬ validSubjectToken id 128 ∨ (request.clearDeadline ∧ ¬ Time.isZero request.deadlineAt) then
    .error .invalidRecord
  else
    let now := if Time.isZero request.now then clock else request.now
    let deadline := canonicalDeadline request.deadlineAt
    if ¬ Time.isZero deadline ∧ ¬ now < deadline then .error .deadlineExpired
    else .ok ({ request with id, now }, deadline)

/-- Only a failed or stopped record resumes: it continues to compensate when there
is something to compensate, otherwise it retries the current forward step. -/
def planResume (record : Record) (defined : Bool) (request : ResumeRequest) (deadline : Time) :
    Except Error Record :=
  if record.status ≠ .failed ∧ record.status ≠ .manualRequired then
    .error (.cannotResume record.status.code)
  else if ¬ defined then .error (.definitionMissing record.type record.definitionVersion)
  else
    let now := request.now
    if ¬ request.clearDeadline ∧ Time.isZero deadline ∧ record.phase = .forward ∧
        ¬ Time.isZero record.deadlineAt ∧ ¬ now < record.deadlineAt then
      .error .deadlineExpired
    else
      let after := { record with
        version := record.version + 1, updatedAt := now, attempt := 0, lastError := "",
        commandID := "", operationKey := "", nextRunAt := now,
        deadlineAt := if request.clearDeadline then 0
          else if Time.isZero deadline then record.deadlineAt else deadline }
      if record.phase = .compensate ∨ 0 < record.completedSteps ∨ 0 < record.lateStep then
        .ok (nextCompensation after now)
      else .ok { after with phase := .forward, status := .pending }

/-- The answer of `planCompensate`: write a compensating state, or reply without a
write, with the record or with an error. -/
inductive CompensatePlan where
  | write (after : Record)
  | unchanged (record : Record)
  | sagaCompleted (record : Record)
  | refuse (err : Error)

def planCompensate (record : Record) (reason : String) (now : Time) : CompensatePlan :=
  match record.status with
  | .compensated | .compensating => .unchanged record
  | .waiting => .refuse .resultInFlight
  | .completed => .sagaCompleted record
  | _ =>
      if record.completedSteps = 0 ∧ record.lateStep = 0 then .refuse .nothingToCompensate
      else .write (beginCompensation record reason now)

inductive CompletionVerdict where
  | accept | history | staleIncarnation | staleAttempt
  deriving DecidableEq, Repr

/-- The record stands at the operation: it waits for one of its attempts or will
dispatch it next. -/
def positionedAt (record : Record) (operation : String) : Bool :=
  match record.status with
  | .waiting => record.operationKey == operation
  | .pending | .compensating => currentOperation record == operation
  | _ => false

/-- The rule for results. A success concludes its operation in every incarnation, a
refusal concludes it in its own, a retryable failure concludes one attempt. -/
def judgeCompletion (record : Record) (completion : Completion) (incarnation : UInt32) :
    CompletionVerdict :=
  let operation := completion.idempotencyKey
  if record.incarnation < incarnation then .staleIncarnation
  else if completion.success then
    if (openOperation record = operation ∨ incarnation < record.incarnation) ∧
        positionedAt record operation then .accept
    else .history
  else if incarnation ≠ record.incarnation then .staleIncarnation
  else if record.status ≠ .waiting ∨ record.operationKey ≠ operation then .history
  else if completion.retryable ∧ completion.commandID ≠ record.commandID then .staleAttempt
  else .accept

structure CompletionHistory where
  recorded : Bool := false
  receipt : Bool := false
  closure : OperationClosure := .unknown

inductive HistoryVerdict where
  | notWaiting | duplicate | lateStep (step : Int) | lateAlarm
  deriving DecidableEq, Repr

/-- The forward step whose late success the coordinator compensates by itself. -/
def lateForwardStep (record : Record) (operation : String) : Option Int :=
  match parseOperationKey record operation with
  | some (.forward, step) =>
      if step < record.completedSteps ∨ (record.lateStep ≠ 0 ∧ record.lateStep ≠ step + 1) then none
      else if record.phase = .compensate ∨ record.status = .failed ∨
          record.status = .manualRequired then some step
      else none
  | _ => none

def judgeHistory (record : Record) (completion : Completion) (history : CompletionHistory) :
    HistoryVerdict :=
  if ¬ history.recorded then .notWaiting
  else if completion.success ∧ ¬ history.receipt ∧ history.closure = .abandoned then
    match lateForwardStep record completion.idempotencyKey with
    | some step => .lateStep step
    | none => .lateAlarm
  else .duplicate

/-- A step took effect after it was abandoned. A compensation under way is not
interrupted, and a record that waits for an operator only remembers the step. -/
def lateStepState (record : Record) (completion : Completion) (step : Int) : Record :=
  let now := completion.completedAt
  let after := { record with
    version := record.version + 1, updatedAt := now, lateStep := step + 1,
    lateData := completion.payload }
  if openOperation record = "" ∧ record.status ≠ .manualRequired then
    nextCompensation { after with
      lastError := "step " ++ toString step ++
        " took effect after the coordinator abandoned it" } now
  else after

/-- The success exit of `applyCompletion` in the forward phase. -/
def forwardSuccess (record : Record) (definition : Definition) (now : Time) : Record :=
  let after := { record with completedSteps := record.step + 1, step := record.step + 1 }
  if ¬ Time.isZero record.deadlineAt ∧ ¬ now < record.deadlineAt then
    compensationState after "saga deadline exceeded after step completion" now
  else if (definition.steps.length : Int) ≤ after.step then
    { after with status := .completed, nextRunAt := 0 }
  else { after with status := .pending, nextRunAt := now }

/-- The success exit of `applyCompletion` in the compensate phase. The late step is
not part of the completed prefix. -/
def compensateSuccess (record : Record) (now : Time) : Record :=
  if compensatingLateStep record then
    nextCompensation { record with lateStep := 0, lateData := [] } now
  else nextCompensation { record with completedSteps := record.completedSteps - 1 } now

/-- The common start of every exit of `applyCompletion`. -/
def received (record : Record) (result : Completion) : Record :=
  { record with
    version := record.version + 1, updatedAt := result.completedAt, commandID := "",
    operationKey := "" }

/-- The common start of its success exits. The result of a late step's compensation
stays out of the data chain. -/
def succeeded (record : Record) (result : Completion) : Record :=
  { received record result with
    data := if compensatingLateStep record then record.data else result.data.getD record.data,
    attempt := 0, lastError := "" }

/-- The target record of an accepted result; its time is the coordinator's. -/
def applyCompletion (record : Record) (definition : Definition) (result : Completion) : Record :=
  let now := result.completedAt
  if result.success then
    match record.phase with
    | .forward => forwardSuccess (succeeded record result) definition now
    | .compensate => compensateSuccess (succeeded record result) now
  else if ¬ result.retryable then
    match record.phase with
    | .compensate => { received record result with status := .manualRequired, nextRunAt := 0 }
    | .forward => compensationState (received record result) result.error now
  else retryState (received record result) definition result.error now

end Roost.Saga
