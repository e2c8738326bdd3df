import RoostCore.Run
import RoostCore.Saga.State

/-! The life of one saga: its state under due timers, results and operator intents.
`Move` says once what an event can do; invariants are derived from it. -/
namespace Roost.Saga
open Go SagaState

inductive Event where
  | due (now : Time)
  | result (c : Completion)
  | resume (request : ResumeRequest) (clock now : Time)
  | compensate (reason : String) (clock now : Time)

/-- The state after an event, the command it dispatched and the operation it closed
with a result. -/
structure Turn where
  next : SagaState
  command : Option Command := none
  closing : Option String := none

/-- A result that changes nothing leaves the state as it is. -/
def ResultOutcome.turn (st : SagaState) (c : Completion) : ResultOutcome → Turn
  | accepted next | lateStep next =>
      { next, closing := if c.success then some c.idempotencyKey else none }
  | lateAlarm next => { next }
  | _ => { next := st }

variable [Digest]

/-- One event at a saga whose definition is registered or, for `none`, is not. -/
def SagaState.turn (retention : Duration) (st : SagaState) (definition : Option Definition) :
    Event → Turn
  | .due now =>
      if st.record.status.terminal then { next := st }
      else
        let (next, plan) := st.due definition now
        { next, command := plan.command }
  | .result c => (st.result definition c).turn st c
  | .resume request clock now =>
      { next := ((st.resume retention definition request clock now).next).getD st }
  | .compensate reason clock now =>
      { next := ((st.compensate retention definition reason clock now).next).getD st }

/-- The result is accepted for the operation the record stands at. -/
structure Accepts (st : SagaState) (c : Completion) : Prop where
  verdict : judgeCompletion st.record c (commandIDIncarnation c.idempotencyKey c.commandID) = .accept
  fresh : st.receipts.get c.commandID = none

/-- The result is a first success of an abandoned operation. -/
structure Abandoned (st : SagaState) (c : Completion) (tomb : OpTombstone) : Prop where
  verdict : judgeCompletion st.record c (commandIDIncarnation c.idempotencyKey c.commandID) = .history
  fresh : st.receipts.get c.commandID = none
  success : c.success = true
  found : st.ops.get c.idempotencyKey = some tomb
  closure : tomb.closure = .abandoned

inductive Move (st : SagaState) (definition : Option Definition) : Event → Turn → Prop where
  | idle {event} : Move st definition event { next := st }
  | due {now} (live : st.record.status.terminal = false) :
      Move st definition (.due now)
        { next := st.apply (planDue st.record definition now).after
            { cause := (planDue st.record definition now).cause }
          command := (planDue st.record definition now).command }
  | accept {c d} (defined : definition = some d) (accepts : Accepts st c) :
      Move st definition (.result c)
        { next := st.apply (applyCompletion st.record d c) { cause := .result, receipt := some c }
          closing := if c.success then some c.idempotencyKey else none }
  | late {c tomb step} (abandoned : Abandoned st c tomb)
      (forward : lateForwardStep st.record c.idempotencyKey = some step) :
      Move st definition (.result c)
        { next := st.apply (lateStepState st.record c step)
            { cause := .lateSuccess, receipt := some c }
          closing := some c.idempotencyKey }
  | alarm {c tomb incarnation} (abandoned : Abandoned st c tomb) :
      Move st definition (.result c)
        { next := st.alarm c.idempotencyKey tomb incarnation }
  | resume {request clock now prepared deadline after}
      (request_ok : prepareResume request clock = .ok (prepared, deadline))
      (planned : planResume st.record definition.isSome prepared deadline = .ok after) :
      Move st definition (.resume request clock now)
        { next := st.apply after { cause := .resume } }
  | compensate {reason clock now after}
      (planned : planCompensate st.record reason clock = .write after) :
      Move st definition (.compensate reason clock now)
        { next := st.apply after { cause := .manualCompensate } }

theorem history_move (st : SagaState) (definition : Option Definition) (c : Completion)
    (verdict : judgeCompletion st.record c (commandIDIncarnation c.idempotencyKey c.commandID) =
      .history) :
    Move st definition (.result c)
      ((st.history c (commandIDIncarnation c.idempotencyKey c.commandID)).turn st c) := by
  unfold history
  cases seen : st.receipts.get c.commandID with
  | some prior =>
    by_cases same : prior = receiptDigest c
    · have history : stateHistory st c = .ok { recorded := true, receipt := true } := by
        simp [stateHistory, seen, same]
      simp only [history, judgeHistory, not_true, if_false, false_and, and_false]
      exact .idle
    · have conflict : stateHistory st c = .error (.identityConflict c.commandID) := by
        simp [stateHistory, seen, same]
      rw [conflict]
      exact .idle
  | none =>
    cases found : st.ops.get c.idempotencyKey with
    | none =>
      have history : stateHistory st c = .ok {} := by simp [stateHistory, seen, found]
      rw [history]
      exact .idle
    | some tomb =>
      have history : stateHistory st c = .ok { recorded := true, closure := tomb.closure } := by
        simp [stateHistory, seen, found]
      rw [history]
      by_cases abandoned : c.success = true ∧ tomb.closure = .abandoned
      · have late : Abandoned st c tomb := ⟨verdict, seen, abandoned.1, found, abandoned.2⟩
        simp only [judgeHistory, abandoned, not_true, if_false, Bool.false_eq_true, not_false_eq_true,
          and_self, if_true]
        cases forward : lateForwardStep st.record c.idempotencyKey with
        | some step =>
          simp only [ResultOutcome.turn, abandoned, if_true]
          exact .late late forward
        | none =>
          dsimp only
          split
          · exact .idle
          · exact .alarm late
      · simp only [judgeHistory, abandoned, not_true, if_false, Bool.false_eq_true,
          not_false_eq_true, true_and]
        exact .idle

theorem turn_move (retention : Duration) (st : SagaState) (definition : Option Definition)
    (event : Event) : Move st definition event (st.turn retention definition event) := by
  cases event with
  | due now =>
    simp only [turn]
    split
    · exact .idle
    · rename_i live
      exact .due (Bool.eq_false_iff.mpr live)
  | result c =>
    simp only [turn]
    unfold result
    dsimp only
    cases verdict : judgeCompletion st.record c
        (commandIDIncarnation c.idempotencyKey c.commandID) with
    | staleIncarnation => exact .idle
    | staleAttempt => exact .idle
    | history => exact history_move st definition c verdict
    | accept =>
      cases definition with
      | none => exact .idle
      | some d =>
        cases seen : st.receipts.get c.commandID with
        | none =>
          have unseen : receiptSeen st c = .unseen := by simp [receiptSeen, seen]
          simp only [unseen]
          exact .accept rfl ⟨verdict, seen⟩
        | some prior =>
          by_cases same : prior = receiptDigest c
          all_goals
            simp only [receiptSeen, seen, same, if_true, if_false]
            exact .idle
  | resume request clock now =>
    simp only [turn]
    unfold resume
    split
    · exact .idle
    rename_i prepared deadline request_ok
    split
    · exact .idle
    rename_i after planned
    split
    · exact .idle
    · exact .resume request_ok planned
  | compensate reason clock now =>
    simp only [turn]
    unfold compensate
    split <;> try exact .idle
    rename_i after planned
    split
    · exact .idle
    · exact .compensate planned

/-- The life of a saga with its dispatches, each with the incarnation of the record
at that time, and the operations closed with a result, both in order. -/
structure Life where
  saga : SagaState
  dispatches : List (Command × UInt32) := []
  closings : List String := []

/-- One event of a saga with a fixed definition, which may be registered or not. -/
def Life.step (retention : Duration) (definition : Definition) (life : Life)
    (input : Bool × Event) : Life :=
  let turn := life.saga.turn retention (if input.1 then some definition else none) input.2
  { saga := turn.next
    dispatches := life.dispatches ++
      (turn.command.map (fun command => (command, life.saga.record.incarnation))).toList
    closings := life.closings ++ turn.closing.toList }

def Life.start (record : Record) : Life := { saga := { record } }

/-! A one-step saga whose only attempt times out and succeeds late: the step is
recorded and compensated. -/
namespace Sample

def definition : Definition :=
  { type := "order", version := 1, steps := [
      { name := "pay", forwardTopic := "shop.pay", compensateTopic := "", timeout := 5 * second,
        maxAttempts := 1, backoffMin := second, backoffMax := 8 * second }] }

def request : StartRequest :=
  { type := "order", businessKey := "42", definitionVersion := 1, data := [], deadlineAt := 0 }

def now : Time := Time.unixEpoch + 1000 * second

def record : Record :=
  { id := "a42", type := "order", definitionVersion := 1, businessKey := "42",
    startDigest := Digest.tail.intent "order" "42" 1 [] 0, status := .pending, phase := .forward,
    step := 0, completedSteps := 0, attempt := 0, incarnation := 0, lateStep := 0, lateData := [],
    version := 1, data := [], lastError := "", operationKey := "", commandID := "",
    nextRunAt := now, deadlineAt := 0, createdAt := now, updatedAt := now, startAttempt := "",
    lifecycle := "L" }

def success (phase : Phase) : Completion :=
  { commandID := commandID (operationKey "a42" "L" phase 0) 0 1,
    idempotencyKey := operationKey "a42" "L" phase 0, sagaID := "a42", success := true,
    retryable := false, data := none, error := "", completedAt := now + 6 * second }

def inputs : List (Bool × Event) :=
  [(true, .due now), (true, .due (now + 5 * second)), (true, .result (success .forward)),
    (true, .due (now + 6 * second)), (true, .result (success .compensate))]

def life : Life := run (@Life.step Digest.tail 0 definition) (Life.start record) inputs

end Sample

end Roost.Saga
