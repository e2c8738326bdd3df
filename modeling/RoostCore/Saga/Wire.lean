import RoostCore.Saga.State

/-! The wire format of a partition (`log_wire.go`, `log_layout.go`): events, the three
kinds of inputs and the checks a decoder makes. A message is modelled by the value its
JSON text decodes to. -/
namespace Roost.Saga
open Go

def wireVersion : UInt16 := 3

/-- A layout that passed `Layout.Validate`; a partition needs its size only. -/
structure Layout where
  partitions : Nat
  valid : 1 ≤ partitions ∧ partitions ≤ 1024
  deriving DecidableEq, Repr

/-- FNV-1a of the ID modulo the number of partitions. -/
def Layout.partitionOf (l : Layout) (id : String) : Nat :=
  (fnv32a id.toUTF8.data.toList).toNat % l.partitions

def knownClosure (closure : OperationClosure) : Bool :=
  closure == .closedWithResult || closure == .abandoned

/-- `sagaState.validate`. -/
def SagaState.validate (st : SagaState) : Except Error Unit :=
  if ¬ st.record.wellFormed then .error .invalidRecord
  else if st.ops.pairs.any (fun (op, tomb) =>
      (parseOperationKey st.record op).isNone || !knownClosure tomb.closure) then
    .error .invalidRecord
  else if st.receipts.pairs.any (fun (command, digest) =>
      command == "" || digest.utf8ByteSize != 64) then
    .error .invalidRecord
  else .ok ()

def eventKinds : List String :=
  ["start", "dispatch", "result", "timeout", "deadline", "late_success", "late_alarm", "resume",
    "compensate", "definition_missing", "invalid_step"]

def eventKindOf : TransitionCause → String
  | .dispatch => "dispatch"
  | .result => "result"
  | .timeout => "timeout"
  | .deadline => "deadline"
  | .definitionMissing => "definition_missing"
  | .invalidStep => "invalid_step"
  | .manualCompensate => "compensate"
  | .resume => "resume"
  | .lateSuccess => "late_success"

/-- The new state of one saga; a dispatch carries its command. `in_` is the input
watermark of the partition when the event was written. -/
structure LogEvent where
  v : UInt16
  part : Nat
  writer : String
  in_ : Nat
  at_ : Time
  kind : String
  saga : SagaState
  command : Option Command

def encodeEvent (ev : LogEvent) : LogEvent := { ev with v := wireVersion }

def decodeEvent (layout : Layout) (k : Nat) (ev : LogEvent) : Except Error LogEvent :=
  if ev.v ≠ wireVersion then .error (.wireVersion ev.v.toNat)
  else if ev.part ≠ k ∨ ¬ eventKinds.contains ev.kind ∨ ev.writer = "" then .error .invalidRecord
  else do
    ev.saga.validate
    if layout.partitionOf ev.saga.record.id ≠ k then .error .invalidRecord
    else match ev.command with
      | none => .ok ev
      | some command =>
          if ¬ command.wellFormed ∨ command.sagaID ≠ ev.saga.record.id ∨ command.partition ≠ k then
            .error .invalidRecord
          else .ok ev

structure StartInput where
  v : UInt16
  request : StartRequest
  attempt : String
  digest : String
  deriving DecidableEq, Repr

structure ResultInput where
  v : UInt16
  completion : Completion
  deriving DecidableEq, Repr

inductive OpKind where
  | resume | compensate
  deriving DecidableEq, Repr

/-- An operator's intent; `kind` is absent for any other text. -/
structure OpInput where
  v : UInt16
  kind : Option OpKind
  id : String
  resume : Option ResumeRequest
  reason : String
  now : Time
  attempt : String
  deriving DecidableEq, Repr

/-- What the JSON text of an input decodes to. -/
inductive InputData where
  | start (input : StartInput)
  | result (input : ResultInput)
  | op (input : OpInput)
  | malformed
  deriving DecidableEq, Repr

def decodeStartInput : InputData → Except Error StartInput
  | .start input =>
      if input.v ≠ wireVersion ∨ input.attempt = "" ∨ 256 < input.attempt.utf8ByteSize ∨
          input.digest.utf8ByteSize ≠ 64 then .error .invalidRecord
      else .ok input
  | _ => .error .invalidRecord

def decodeResultInput (maxPayload : Nat) : InputData → Except Error Completion
  | .result input =>
      if input.v ≠ wireVersion then .error (.wireVersion input.v.toNat)
      else if ¬ input.completion.wellFormed ∨ maxPayload < input.completion.payload.length then
        .error .invalidRecord
      else .ok input.completion
  | _ => .error .invalidRecord

theorem decodeResultInput_ok (decoded : decodeResultInput limit (.result input) = .ok c) :
    c = input.completion ∧ c.wellFormed = true ∧ c.payload.length ≤ limit := by
  simp only [decodeResultInput] at decoded
  split at decoded
  · contradiction
  split at decoded
  · contradiction
  rename_i valid
  cases decoded
  exact ⟨rfl, by simpa using valid⟩

theorem decodeResultInput_valid (decoded : decodeResultInput limit data = .ok c) :
    c.wellFormed = true ∧ c.payload.length ≤ limit := by
  cases data with
  | result input => exact (decodeResultInput_ok decoded).2
  | _ => contradiction

def OpInput.valid (input : OpInput) : Bool :=
  input.v == wireVersion && input.attempt != "" && input.attempt.utf8ByteSize ≤ 256 &&
    validSubjectToken input.id 128 && !Time.isZero input.now &&
    match input.kind with
    | some .resume =>
        match input.resume with
        | some request => request.id == input.id
        | none => false
    | some .compensate => input.resume.isNone && input.reason.utf8ByteSize ≤ 4096
    | none => false

def decodeOpInput : InputData → Except Error OpInput
  | .op input => if input.valid then .ok input else .error .invalidRecord
  | _ => .error .invalidRecord

theorem decodeOpInput_valid (decoded : decodeOpInput data = .ok input) :
    input.now ≠ 0 ∧ (input.kind = some .compensate → input.reason.utf8ByteSize ≤ 4096) := by
  cases data with
  | op raw =>
    simp only [decodeOpInput] at decoded
    split at decoded
    · rename_i valid
      cases decoded
      simp only [OpInput.valid, Bool.and_eq_true] at valid
      refine ⟨by simpa [Time.isZero] using valid.1.2, fun kind => ?_⟩
      have rest := valid.2
      simp only [kind, Bool.and_eq_true, decide_eq_true_eq] at rest
      exact rest.2
    · contradiction
  | _ => contradiction

/-- The tests of `round.result` before a verdict: the operation is the saga's, and of
the life it has now. -/
def ofSaga (c : Completion) : Bool := hasPrefix c.idempotencyKey (c.sagaID ++ ":")

def ofLifecycle (c : Completion) (lifecycle : String) : Bool :=
  hasPrefix c.idempotencyKey (c.sagaID ++ ":" ++ lifecycle ++ ":")

end Roost.Saga
