import RoostCore.Go.Table
import RoostCore.Saga.Transition

/-! The state a partition keeps for one saga (`log_wire.go`): the record, the
tombstones of closed operations and the digests of accepted results. The functions
below are the parts of a round (`partition.go`) that concern a single saga; a round
adds events, verdicts and counters to them. -/
namespace Roost.Saga
open Go

structure OpTombstone where
  closure : OperationClosure := .unknown
  lateAlarms : List UInt32 := []
  deriving DecidableEq, Repr

structure SagaState where
  record : Record
  ops : Table String OpTombstone := ∅
  receipts : Table String String := ∅
  deriving DecidableEq

variable [Digest]

def receiptDigest (c : Completion) : String :=
  Digest.receipt c.commandID c.idempotencyKey c.sagaID c.success c.retryable c.data c.error

/-- Only an accepted success closes with a result; a tombstone that exists is not
turned into an abandoned one. -/
def closeTombstone (prior : Option OpTombstone) (success : Bool) : OpTombstone :=
  match success, prior with
  | true, _ => { prior.getD {} with closure := .closedWithResult }
  | false, some tomb => tomb
  | false, none => { closure := .abandoned }

/-- `round.apply`: one transition of the saga. -/
def SagaState.apply (before : SagaState) (after : Record) (t : Transition) : SagaState :=
  let (written, closeOperation) := planTransition before.record after t
  { record := written
    receipts :=
      match t.receipt with
      | some c => before.receipts.set c.commandID (receiptDigest c)
      | none => before.receipts
    ops :=
      if closeOperation = "" then before.ops
      else before.ops.set closeOperation
        (closeTombstone (before.ops.get closeOperation) t.success.isSome) }

/-- Whether the command has a receipt: with the same digest a duplicate, with
another one an identity conflict. -/
inductive ReceiptCheck where
  | unseen | duplicate | conflict
  deriving DecidableEq, Repr

def receiptSeen (st : SagaState) (c : Completion) : ReceiptCheck :=
  match st.receipts.get c.commandID with
  | none => .unseen
  | some prior => if prior = receiptDigest c then .duplicate else .conflict

def stateHistory (st : SagaState) (c : Completion) : Except Error CompletionHistory :=
  match st.receipts.get c.commandID with
  | some prior =>
      if prior = receiptDigest c then .ok { recorded := true, receipt := true }
      else .error (.identityConflict c.commandID)
  | none =>
      match st.ops.get c.idempotencyKey with
      | some tomb => .ok { recorded := true, closure := tomb.closure }
      | none => .ok {}

inductive ResultOutcome where
  | staleIncarnation | staleAttempt | duplicate
  | rejected (reason : String) (err : Error)
  | accepted (next : SagaState)
  | lateStep (next : SagaState)
  | lateAlarm (next : SagaState)

def SagaState.alarm (st : SagaState) (operation : String) (tomb : OpTombstone)
    (incarnation : UInt32) : SagaState :=
  let alarmed := { tomb with lateAlarms := tomb.lateAlarms ++ [incarnation] }
  { st with ops := st.ops.set operation alarmed }

/-- `round.history`, for results the record does not wait for. -/
def SagaState.history (st : SagaState) (c : Completion) (incarnation : UInt32) : ResultOutcome :=
  match stateHistory st c with
  | .error err => .rejected "identity" err
  | .ok history =>
      match judgeHistory st.record c history with
      | .notWaiting => .rejected "not_waiting" (.notWaiting c.commandID)
      | .duplicate => .duplicate
      | .lateStep step =>
          .lateStep (st.apply (lateStepState st.record c step)
            { cause := .lateSuccess, receipt := some c })
      | .lateAlarm =>
          match st.ops.get c.idempotencyKey with
          | none => .duplicate
          | some tomb =>
              if tomb.lateAlarms.contains incarnation then .duplicate
              else .lateAlarm (st.alarm c.idempotencyKey tomb incarnation)

/-- `round.result` once the saga is found; the time of `c` is the round's. -/
def SagaState.result (st : SagaState) (definition : Option Definition) (c : Completion) :
    ResultOutcome :=
  let incarnation := commandIDIncarnation c.idempotencyKey c.commandID
  match judgeCompletion st.record c incarnation with
  | .staleIncarnation => .staleIncarnation
  | .staleAttempt => .staleAttempt
  | .history => st.history c incarnation
  | .accept =>
      match definition with
      | none =>
          .rejected "definition_missing"
            (.definitionMissing st.record.type st.record.definitionVersion)
      | some definition =>
          match receiptSeen st c with
          | .conflict => .rejected "identity" (.identityConflict c.commandID)
          | .duplicate => .duplicate
          | .unseen =>
              .accepted (st.apply (applyCompletion st.record definition c)
                { cause := .result, receipt := some c })

/-- The longest planned time from the first dispatch of an operation to the deadline
of its last attempt, in the arithmetic of `int64`. -/
def Step.retryWindow (s : Step) : Duration :=
  let attempts : Int := max s.maxAttempts.toNat 1
  Int.bmod (s.timeout * attempts + s.backoffMax * (attempts - 1)) (2 ^ 64)

/-- The receipts of the participants may be gone: the record was last written before
the retention period less the longest window. An unknown definition has no steps. -/
def receiptsExpired (retention : Duration) (record : Record) (definition : Option Definition)
    (now : Time) : Bool :=
  let steps := (definition.map Definition.steps).getD []
  let window := steps.foldl (fun window step => max window step.retryWindow) 0
  record.updatedAt < now + (-retention + window)

inductive OpOutcome where
  | applied (next : SagaState)
  | unchanged (record : Record)
  | sagaCompleted (record : Record)
  | refused (err : Error)

def OpOutcome.next : OpOutcome → Option SagaState
  | applied next => some next
  | _ => none

/-- The Resume branch of `round.operation`; `clock` is the time of the intent and
`now` that of the round. -/
def SagaState.resume (retention : Duration) (st : SagaState) (definition : Option Definition)
    (request : ResumeRequest) (clock now : Time) : OpOutcome :=
  match prepareResume request clock with
  | .error err => .refused err
  | .ok (request, deadline) =>
      match planResume st.record definition.isSome request deadline with
      | .error err => .refused err
      | .ok after =>
          if receiptsExpired retention st.record definition now then .refused .receiptsExpired
          else .applied (st.apply after { cause := .resume })

/-- The Compensate branch of `round.operation`. -/
def SagaState.compensate (retention : Duration) (st : SagaState) (definition : Option Definition)
    (reason : String) (clock now : Time) : OpOutcome :=
  match planCompensate st.record reason clock with
  | .unchanged record => .unchanged record
  | .sagaCompleted record => .sagaCompleted record
  | .refuse err => .refused err
  | .write after =>
      if st.record.phase = .compensate ∧ receiptsExpired retention st.record definition now then
        .refused .receiptsExpired
      else .applied (st.apply after { cause := .manualCompensate })

/-- `round.due`: the next state and the dispatched command. -/
def SagaState.due (st : SagaState) (definition : Option Definition) (now : Time) :
    SagaState × DuePlan :=
  let plan := planDue st.record definition now
  (st.apply plan.after { cause := plan.cause }, plan)

end Roost.Saga
