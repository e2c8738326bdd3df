import RoostCore.Go.Table
import RoostCore.Saga.Identity

/-! Participants of a saga: the native step (`step_receipt.go`), whose receipts live
in the entity it changes, and the Mongo inbox (`mongo_step_inbox.go`), one receipt
document per operation. Both run a delivered command atomically: read the receipt,
replay it or execute the business, and write the new receipt. -/
namespace Roost.Saga
open Go

/-- What one run of a step tells the consumer. -/
inductive StepOutcome where
  | executed (completion : Completion)
  | replayed (completion : Completion)
  | expired
  deriving DecidableEq, Repr

/-- The completion an outcome carries to the coordinator. -/
def StepOutcome.completion : StepOutcome → Option Completion
  | executed completion | replayed completion => some completion
  | expired => none

structure StepReceipt where
  commandID : String
  incarnation : UInt32
  success : Bool
  error : String
  at_ : Int
  deriving DecidableEq, Repr

/-- The content check of `decodeStepReceipt`. -/
def StepReceipt.wellFormed (r : StepReceipt) : Bool :=
  r.commandID != "" && (r.success || r.error != "")

/-- A native success carries the payload of its own command. -/
def successData (command : Command) (success : Bool) : Option Bytes :=
  if !success || command.payload.length == 0 then none else some command.payload

def Command.conclude (command : Command) (commandID : String) (success : Bool) (error : String) :
    Completion :=
  { commandID, idempotencyKey := command.idempotencyKey, sagaID := command.sagaID,
    success, retryable := false, data := successData command success, error,
    completedAt := 0 }

/-- `nativeRun.begin`: the outcome when nothing is to be executed, `none` when the
business runs. -/
def nativeBegin (command : Command) (receipts : Table String StepReceipt) (now : Time) :
    Except Error (Option StepOutcome) :=
  let expired := if ¬ now < command.deadlineAt then some .expired else none
  match receipts.get command.idempotencyKey with
  | none => .ok expired
  | some receipt =>
      if ¬ receipt.wellFormed then .error .invalidRecord
      else if receipt.success ∨
          receipt.incarnation = commandIDIncarnation command.idempotencyKey command.id then
        .ok (some (.replayed (command.conclude receipt.commandID receipt.success receipt.error)))
      else .ok expired

theorem nativeBegin_done (begun : nativeBegin command receipts now = .ok (some outcome)) :
    outcome = .expired ∨ ∃ receipt, receipts.get command.idempotencyKey = some receipt ∧
      outcome = .replayed (command.conclude receipt.commandID receipt.success receipt.error) := by
  unfold nativeBegin at begun
  dsimp only at begun
  split at begun
  · split at begun <;> cases begun
    exact .inl rfl
  rename_i receipt found
  split at begun
  · contradiction
  split at begun
  · cases Option.some.inj (Except.ok.inj begun)
    exact .inr ⟨receipt, found, rfl⟩
  · split at begun <;> cases begun
    exact .inl rfl

/-- The business runs before the deadline, without a success and without a refusal of
the command's own incarnation. -/
theorem nativeBegin_execute (begun : nativeBegin command receipts now = .ok none) :
    now < command.deadlineAt ∧ ∀ receipt, receipts.get command.idempotencyKey = some receipt →
      receipt.success = false ∧
        receipt.incarnation ≠ commandIDIncarnation command.idempotencyKey command.id := by
  unfold nativeBegin at begun
  dsimp only at begun
  split at begun
  · rename_i absent
    split at begun
    · cases begun
    rename_i inTime
    refine ⟨Decidable.not_not.mp inTime, fun receipt found => ?_⟩
    rw [absent] at found
    contradiction
  · rename_i receipt found
    split at begun
    · contradiction
    split at begun
    · cases begun
    rename_i open_
    split at begun
    · cases begun
    rename_i inTime
    refine ⟨Decidable.not_not.mp inTime, fun other same => ?_⟩
    cases Option.some.inj (found.symm.trans same)
    simpa using open_

/-- `pruneStepReceipts`: at most sixteen receipts older than the cutoff, in the order
the store visits them, and never the one just written. -/
def pruneStepReceipts (receipts : Table String StepReceipt) (keep : String) (cutoff : Int)
    (order : List String) : Table String StepReceipt :=
  let old (operation : String) : Bool :=
    match receipts.get operation with
    | some receipt => operation != keep && receipt.wellFormed && receipt.at_ < cutoff
    | none => false
  ((order.filter old).take 16).foldl Table.remove receipts

def defaultStepReceiptRetention : Duration := 168 * 3600 * second

/-- The receipt of an executed command; a refusal always has an error text. -/
def nativeReceipt (command : Command) (success : Bool) (reason : String) (now : Time) :
    StepReceipt :=
  { commandID := command.id,
    incarnation := commandIDIncarnation command.idempotencyKey command.id,
    success,
    error :=
      if success then ""
      else if reason = "" then "saga: native step " ++ command.stepName ++ " refused"
      else reason,
    at_ := Time.unixMilli now }

/-- `nativeRun.complete`: the receipts and the completion of an executed command. -/
def nativeComplete (retention : Duration) (command : Command)
    (receipts : Table String StepReceipt) (success : Bool) (reason : String) (now : Time)
    (order : List String) : Table String StepReceipt × Completion :=
  let retention := if retention ≤ 0 then defaultStepReceiptRetention else retention
  let receipt := nativeReceipt command success reason now
  (pruneStepReceipts (receipts.set command.idempotencyKey receipt) command.idempotencyKey
      (Time.unixMilli (now - retention)) order,
    command.conclude command.id success receipt.error)

/-- One delivery of a command to a native step. `business` is what the handler passes
to Complete, absent when its transaction rolls back; `reported` is false when the
request fails although its transaction may have committed. -/
structure NativeCall where
  command : Command
  now : Time
  business : Option (Bool × String)
  done : Time
  order : List String
  reported : Bool

/-- The deadline of the command has passed, or the receipt of its operation is a success
or of its incarnation. -/
def NativeCall.Covered (call : NativeCall) (receipts : Table String StepReceipt) : Prop :=
  call.command.deadlineAt ≤ call.now ∨
    ∃ r ∈ receipts.get call.command.idempotencyKey, r.success = true ∨
      r.incarnation = commandIDIncarnation call.command.idempotencyKey call.command.id
  deriving Decidable

/-- What a run leaves: the receipts, the completion it executed and committed, and
the outcome the consumer sees. -/
structure NativeResult where
  receipts : Table String StepReceipt
  executed : Option Completion := none
  outcome : Option StepOutcome := none

/-- `RunNativeStep`, with the transaction of the handler as one step. -/
def runNativeStep (retention : Duration) (receipts : Table String StepReceipt)
    (call : NativeCall) : NativeResult :=
  let report (outcome : StepOutcome) := if call.reported then some outcome else none
  if ¬ call.command.wellFormed then { receipts }
  else match nativeBegin call.command receipts call.now with
  | .error _ => { receipts }
  | .ok (some outcome) => { receipts, outcome := report outcome }
  | .ok none =>
      match call.business with
      | none => { receipts }
      | some (success, reason) =>
          let (next, completion) :=
            nativeComplete retention call.command receipts success reason call.done call.order
          { receipts := next, executed := some completion, outcome := report (.executed completion) }

theorem NativeCall.Covered.unexecuted (covered : call.Covered receipts) (retention : Duration) :
    (runNativeStep retention receipts call).executed = none := by
  unfold runNativeStep
  dsimp only
  split
  · rfl
  split
  · rfl
  · rfl
  rename_i begun
  obtain ⟨inTime, unanswered⟩ := nativeBegin_execute begun
  rcases covered with late | ⟨r, found, success | own⟩
  · exact absurd inTime (Int.not_lt.mpr late)
  · exact absurd ((unanswered r found).1.symm.trans success) nofun
  · exact absurd own (unanswered r found).2

/-- The receipt document of one operation; absent and empty data are stored alike. -/
structure MongoReceipt where
  commandID : String
  incarnation : UInt32
  success : Bool
  retryable : Bool
  error : String
  data : Bytes
  at_ : Time
  deriving DecidableEq, Repr

def MongoReceipt.replays (d : MongoReceipt) (command : Command) (incarnation : UInt32) : Bool :=
  if d.success then true
  else if d.retryable then d.commandID == command.id
  else d.incarnation == incarnation

def MongoReceipt.completion (d : MongoReceipt) (command : Command) : Completion :=
  { commandID := d.commandID, idempotencyKey := command.idempotencyKey, sagaID := command.sagaID,
    success := d.success, retryable := d.retryable,
    data := if d.data = [] then none else some d.data, error := d.error, completedAt := 0 }

/-- How the transaction of one run ends: committed and reported, committed with an
unknown outcome, not committed with an error, or not committed and to be run again
(a duplicate key or a replacement that matched nothing). -/
inductive Fate where
  | commits | unknown | fails | conflicts
  deriving DecidableEq, Repr

/-- What the environment decides in one run: the clock before the handler, the
handler's result, the clock before the write and at the write, and the fate. -/
structure MongoRun where
  now : Time
  handler : Option Completion
  later : Time
  written : Time
  fate : Fate

inductive RunEnd where
  | outcome (outcome : StepOutcome)
  | error
  | rerun
  deriving DecidableEq, Repr

structure MongoResult where
  doc : Option MongoReceipt
  executed : Option Completion := none
  ended : RunEnd

def Completion.receipt (c : Completion) (command : Command) (written : Time) : MongoReceipt :=
  { commandID := command.id, incarnation := commandIDIncarnation command.idempotencyKey command.id,
    success := c.success, retryable := c.retryable, error := c.error, data := c.payload,
    at_ := written }

/-- How a transaction that would report `outcome` ends. -/
def Fate.finish (fate : Fate) (outcome : StepOutcome) : RunEnd :=
  match fate with
  | .commits => .outcome outcome
  | .unknown | .fails => .error
  | .conflicts => .rerun

def Completion.for (c : Completion) (command : Command) : Completion :=
  { c with
    commandID := command.id, idempotencyKey := command.idempotencyKey, sagaID := command.sagaID,
    completedAt := 0 }

/-- The part of `handleOnce` after the receipt: the two deadline checks, the handler
and the write. -/
def executeOnce (doc : Option MongoReceipt) (command : Command) (run : MongoRun) : MongoResult :=
  if ¬ run.now < command.deadlineAt then { doc, ended := run.fate.finish .expired }
  else match run.handler with
  | none => { doc, ended := .error }
  | some completion =>
      let completion := completion.for command
      if ¬ completion.wellFormed then { doc, ended := .error }
      else if ¬ run.later < command.deadlineAt then { doc, ended := .rerun }
      else if run.fate = .commits ∨ run.fate = .unknown then
        { doc := some (completion.receipt command run.written), executed := some completion,
          ended := run.fate.finish (.executed completion) }
      else { doc, ended := run.fate.finish (.executed completion) }

/-- `handleOnce`: one transaction over the receipt document of the operation. -/
def handleOnce (doc : Option MongoReceipt) (command : Command) (run : MongoRun) : MongoResult :=
  match doc with
  | none => executeOnce none command run
  | some previous =>
      if previous.replays command (commandIDIncarnation command.idempotencyKey command.id) then
        { doc, ended := run.fate.finish (.replayed (previous.completion command)) }
      else executeOnce doc command run

/-- The loop of `Handle` over the runs the environment grants. -/
def handleRuns (command : Command) (doc : Option MongoReceipt) : List MongoRun → MongoResult
  | [] => { doc, ended := .error }
  | run :: rest =>
      let result := handleOnce doc command run
      match result.ended with
      | .rerun => handleRuns command result.doc rest
      | _ => result

/-- `MongoStepInbox.Handle`: at most three runs. -/
def handle (command : Command) (doc : Option MongoReceipt) (runs : List MongoRun) : MongoResult :=
  if ¬ command.wellFormed then { doc, ended := .error }
  else handleRuns command doc (runs.take 3)

end Roost.Saga
