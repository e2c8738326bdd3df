import RoostCore.Go.Text
import RoostCore.Go.Time

/-! The persistent data of one saga (`record.go`): definitions and their step
budgets, the record, the commands it dispatches and the completions it receives,
with the validation each of them must pass. -/
namespace Roost.Saga
open Go

abbrev Bytes := List UInt8

/-- The error values of `errors.go`, with the data their texts are built from. -/
inductive Error where
  | invalidDefinition
  | invalidStep (index : Nat)
  | duplicateStep (name : String)
  | invalidRecord
  | startDigestDiffers
  | wireVersion (version : Nat)
  | definitionMissing (type : String) (version : UInt32)
  | deadlineExpired
  | cannotResume (status : Nat)
  | resultInFlight
  | nothingToCompensate
  | sagaCompleted
  | receiptsExpired
  | identityConflict (command : String)
  | notWaiting (command : String)
  | foreignOperation (operation saga : String)
  | snapshotIncompatible
  deriving DecidableEq, Repr

/-- Completed, Compensated, Failed and ManualRequired are terminal. -/
inductive Status where
  | pending | waiting | compensating | completed | compensated | failed | manualRequired
  deriving DecidableEq, Repr

namespace Status

/-- The wire value: the constants start at one. -/
def code : Status → Nat
  | pending => 1
  | waiting => 2
  | compensating => 3
  | completed => 4
  | compensated => 5
  | failed => 6
  | manualRequired => 7

def terminal (s : Status) : Bool :=
  s == completed || s == compensated || s == failed || s == manualRequired

end Status

inductive Phase where
  | forward | compensate
  deriving DecidableEq, Repr

def Phase.code : Phase → Nat
  | forward => 1
  | compensate => 2

/-- One step of a definition with its timeout and retry budget. -/
structure Step where
  name : String
  forwardTopic : String
  compensateTopic : String
  timeout : Duration
  maxAttempts : UInt32
  backoffMin : Duration
  backoffMax : Duration
  deriving DecidableEq, Repr

structure Definition where
  type : String
  version : UInt32
  steps : List Step
  deriving DecidableEq, Repr

def validSubjectToken (token : String) (maxLength : Nat) : Bool :=
  token != "" && token.utf8ByteSize ≤ maxLength && !containsAny token ".*> \t\r\n"

def validSubject (subject : String) : Bool :=
  subject != "" && subject.utf8ByteSize ≤ 256 && trimSpace subject == subject &&
    (split subject '.').all (fun token => validSubjectToken token 128)

/-- A lifecycle fits a subject token and holds no separator of operation keys. -/
def validLifecycle (lifecycle : String) : Bool :=
  validSubjectToken lifecycle 64 && !lifecycle.toList.contains ':'

/-- `strings.TrimSpace(s) == s`, nonempty and at most `limit` bytes long. -/
def validName (s : String) (limit : Nat) : Bool :=
  trimSpace s == s && s != "" && s.utf8ByteSize ≤ limit

def Step.valid (s : Step) : Bool :=
  validName s.name 128 && validSubject s.forwardTopic &&
    (s.compensateTopic == "" || validSubject s.compensateTopic) &&
    (s.compensateTopic != "" || validSubject (s.forwardTopic ++ ".compensate")) &&
    0 < s.timeout && s.maxAttempts != 0 && s.maxAttempts ≤ 1000 &&
    0 < s.backoffMin && s.backoffMin ≤ s.backoffMax

/-- The loop of `Definition.Validate`; `seen` holds the names before index `i`. -/
def validateSteps (seen : List String) (i : Nat) : List Step → Except Error Unit
  | [] => .ok ()
  | s :: rest =>
      if !s.valid then .error (.invalidStep i)
      else if seen.contains s.name then .error (.duplicateStep s.name)
      else validateSteps (s.name :: seen) (i + 1) rest

def Definition.validate (d : Definition) : Except Error Unit :=
  if !validName d.type 128 || d.version == 0 || d.steps.length == 0 || 256 < d.steps.length then
    .error .invalidDefinition
  else validateSteps [] 0 d.steps

/-- A definition that passed `Definition.Validate`. -/
structure ValidDefinition extends Definition where
  valid : toDefinition.validate = .ok ()

structure Record where
  id : String
  type : String
  definitionVersion : UInt32
  businessKey : String
  startDigest : String
  status : Status
  phase : Phase
  step : Int
  completedSteps : Int
  attempt : UInt32
  incarnation : UInt32
  lateStep : Int
  lateData : Bytes
  version : Nat
  data : Bytes
  lastError : String
  operationKey : String
  commandID : String
  nextRunAt : Time
  deadlineAt : Time
  createdAt : Time
  updatedAt : Time
  startAttempt : String
  lifecycle : String
  deriving DecidableEq, Repr

/-- Without a late step there is no late payload; a late step lies outside the
completed prefix, and its record compensates or waits for an operator. -/
def Record.lateStepValid (r : Record) : Bool :=
  if r.lateStep == 0 then r.lateData.length == 0
  else 0 < r.lateStep && r.completedSteps ≤ r.lateStep - 1 && r.lateData.length ≤ 4 <<< 20 &&
    (r.phase == .compensate || r.status == .manualRequired) &&
    r.status != .completed && r.status != .compensated && r.status != .failed

def Record.waitingFields (r : Record) : Bool :=
  r.operationKey != "" && r.operationKey.utf8ByteSize ≤ 192 &&
    r.commandID != "" && r.commandID.utf8ByteSize ≤ 192 && 0 < r.attempt

/-- The clauses of `Record.Validate`. The ranges of `Status` and `Phase` hold by
type. -/
def Record.wellFormed (r : Record) : Bool :=
  validSubjectToken r.id 128 && validLifecycle r.lifecycle && validName r.type 128 &&
    r.definitionVersion != 0 && validName r.businessKey 512 &&
    r.data.length ≤ 4 <<< 20 && r.lastError.utf8ByteSize ≤ 4096 && r.version != 0 &&
    0 ≤ r.step && 0 ≤ r.completedSteps && !Time.isZero r.createdAt && !Time.isZero r.updatedAt &&
    (r.status.terminal || !Time.isZero r.nextRunAt) &&
    (r.status == .waiting) == r.waitingFields &&
    (r.status == .waiting || (r.operationKey == "" && r.commandID == "")) &&
    (r.status != .compensating ||
      (r.phase == .compensate && (r.completedSteps != 0 || r.lateStep != 0))) &&
    (r.status != .compensated || r.completedSteps == 0) && r.lateStepValid

def Record.validate (r : Record) : Except Error Unit :=
  if r.wellFormed then .ok () else .error .invalidRecord

/-- One dispatched attempt. `id` names the attempt, `idempotencyKey` its operation. -/
structure Command where
  id : String
  idempotencyKey : String
  sagaID : String
  sagaType : String
  definitionVersion : UInt32
  businessKey : String
  step : Int
  stepName : String
  phase : Phase
  attempt : UInt32
  topic : String
  payload : Bytes
  deadlineAt : Time
  createdAt : Time
  partition : Nat
  deriving DecidableEq, Repr

def Command.wellFormed (c : Command) : Bool :=
  c.id.utf8ByteSize ≤ 192 && c.id != "" && c.idempotencyKey.utf8ByteSize ≤ 192 &&
    c.idempotencyKey != "" && validSubjectToken c.sagaID 128 && validName c.sagaType 128 &&
    c.definitionVersion != 0 && validName c.businessKey 512 && 0 ≤ c.step &&
    validName c.stepName 128 && c.attempt != 0 && validSubject c.topic &&
    c.payload.length ≤ 4 <<< 20 && !Time.isZero c.deadlineAt && !Time.isZero c.createdAt

def Command.validate (c : Command) : Except Error Unit :=
  if c.wellFormed then .ok () else .error .invalidRecord

/-- The result of one attempt: success, refusal or retryable failure. `data` is
`none` for a nil slice, which a success leaves out of the data chain. -/
structure Completion where
  commandID : String
  idempotencyKey : String
  sagaID : String
  success : Bool
  retryable : Bool
  data : Option Bytes
  error : String
  completedAt : Time
  deriving DecidableEq, Repr

/-- The number of bytes of the data, zero for nil. -/
def Completion.payload (c : Completion) : Bytes := c.data.getD []

def Completion.invalidOutcome (c : Completion) : Bool :=
  (c.success && (c.retryable || c.error != "")) || (!c.success && trimSpace c.error == "")

def Completion.wellFormed (c : Completion) : Bool :=
  c.commandID != "" && c.commandID.utf8ByteSize ≤ 192 && c.idempotencyKey != "" &&
    c.idempotencyKey.utf8ByteSize ≤ 192 && validSubjectToken c.sagaID 128 &&
    c.error.utf8ByteSize ≤ 4096 && c.payload.length ≤ 4 <<< 20 && !c.invalidOutcome

def Completion.validate (c : Completion) : Except Error Unit :=
  if c.wellFormed then .ok () else .error .invalidRecord

/-- The intent to start a saga; its ID is derived from type and business key. -/
structure StartRequest where
  type : String
  businessKey : String
  definitionVersion : UInt32
  data : Bytes
  deadlineAt : Time
  deriving DecidableEq, Repr

structure ResumeRequest where
  id : String
  now : Time
  deadlineAt : Time
  clearDeadline : Bool
  deriving DecidableEq, Repr

/-- How a closed operation was closed. A tombstone always records one of the two;
the wire value zero is the absent tombstone. -/
inductive OperationClosure where
  | unknown | closedWithResult | abandoned
  deriving DecidableEq, Repr

/-- The SHA-256 digests of the package over the JSON of the listed fields:
`receiptDigest`, `startIntentDigest` and `IDOf`. Only the shape of a hexadecimal
digest is used. -/
class Digest where
  receipt : (command key saga : String) → (success retryable : Bool) → Option Bytes →
    (error : String) → String
  intent : (type businessKey : String) → (version : UInt32) → Bytes → Time → String
  id : (type businessKey : String) → String
  receipt_size : ∀ command key saga success retryable data error,
    (receipt command key saga success retryable data error).utf8ByteSize = 64
  id_size : ∀ type businessKey, (id type businessKey).utf8ByteSize = 32
  id_hex : ∀ type businessKey, ∀ c ∈ (id type businessKey).toList, c ∈ "0123456789abcdef".toList

/-- The low hexadecimal digits of the last characters of a text. -/
def hexTail (size : Nat) (text : String) : List Char :=
  (List.range size).map (fun i => Nat.digitChar ((text.toList.reverse.getD i '0').toNat % 16))

theorem hexTail_hex (size : Nat) (text : String) :
    ∀ c ∈ hexTail size text, c ∈ "0123456789abcdef".toList := by
  intro c member
  obtain ⟨i, -, rfl⟩ := List.mem_map.mp member
  have digits : ∀ n : Fin 16, Nat.digitChar n ∈ "0123456789abcdef".toList := by decide
  exact digits ⟨_, Nat.mod_lt _ (by decide)⟩

theorem hexTail_size (size : Nat) (text : String) :
    (String.ofList (hexTail size text)).utf8ByteSize = size := by
  rw [ascii_size, hexTail, List.length_map, List.length_range]
  have ascii : ∀ c ∈ "0123456789abcdef".toList, c.utf8Size = 1 := by simp [Char.utf8Size]
  exact fun c member => ascii c (hexTail_hex size text c member)

/-- A digest that can be evaluated, for concrete lives of a saga. -/
@[reducible] def Digest.tail : Digest where
  receipt command _ _ success retryable _ error :=
    String.ofList (hexTail 64 (command ++ toString success ++ toString retryable ++ error))
  intent type businessKey version _ _ :=
    String.ofList (hexTail 64 (type ++ businessKey ++ toString version.toNat))
  id type businessKey := String.ofList (hexTail 32 (type ++ businessKey))
  receipt_size _ _ _ _ _ _ _ := hexTail_size 64 _
  id_size _ _ := hexTail_size 32 _
  id_hex _ _ c member := hexTail_hex 32 _ c (by simpa using member)

end Roost.Saga
