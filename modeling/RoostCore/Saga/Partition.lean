import RoostCore.Saga.Wire
import RoostCore.Saga.Wheel

/-! One round of a partition (`partition.go`): the inputs in order, then the due
timers, all over an overlay of the committed sagas. A round writes its new states as
events; the partition installs them once they are durable. -/
namespace Roost.Saga
open Go

/-- The options of the engine that a partition reads, and the partition's place. The
engine owns partitions of its layout only and has a name. -/
structure Options where
  layout : Layout
  k : Nat
  owned : k < layout.partitions
  writer : String
  named : writer ≠ ""
  maxPayload : Nat
  receiptRetention : Duration
  terminalRetention : Duration
  tick : Duration
  wheelSlots : Int

/-- The registered definitions, each of which passed `Definition.Validate`. -/
structure Registry where
  definition : String → UInt32 → Option Definition
  valid : ∀ type version d, definition type version = some d → d.validate = .ok ()

instance : CoeFun Registry (fun _ => String → UInt32 → Option Definition) := ⟨Registry.definition⟩

inductive InputKind where
  | start | res | op | other
  deriving DecidableEq, Repr

/-- An input of the log. The random lifecycle and the state of the admission gate are
read while the message is handled: `closed` is the reason of a closed gate. -/
structure InputMsg where
  seq : Nat
  kind : InputKind
  data : InputData
  reply : String
  lifecycle : String
  closed : Option String
  deriving DecidableEq, Repr

inductive Outcome where
  | accepted | existing | identityConflict | rejected | definitionMissing | notFound | invalid
  | sagaCompleted | deadlineExpired | receiptsExpired | unchanged | refused
  deriving DecidableEq, Repr

/-- The answer to one attempt of a start or an operation. -/
structure PendingVerdict where
  reply : String
  attempt : String
  outcome : Outcome
  reason : String := ""
  err : Option Error := none
  id : String := ""
  record : Option Record := none

structure PartitionCounts where
  started : Nat := 0
  dispatched : Nat := 0
  completed : Nat := 0
  compensated : Nat := 0
  failed : Nat := 0
  manualRequired : Nat := 0
  duplicates : Nat := 0
  lateAfterAbandon : Nat := 0
  staleIncarnation : Nat := 0
  staleAttempt : Nat := 0
  reopened : Nat := 0
  rejectedInputs : Nat := 0
  admissionRejected : Nat := 0
  unknownSaga : Nat := 0

def PartitionCounts.addTerminal (c : PartitionCounts) : Status → PartitionCounts
  | .completed => { c with completed := c.completed + 1 }
  | .compensated => { c with compensated := c.compensated + 1 }
  | .failed => { c with failed := c.failed + 1 }
  | .manualRequired => { c with failed := c.failed + 1, manualRequired := c.manualRequired + 1 }
  | _ => c

structure PruneEntry where
  id : String
  updatedAt : Time
  deriving DecidableEq, Repr

structure Partition where
  sagas : Table String SagaState := ∅
  lastEv : Nat := 0
  inHi : Nat := 0
  wheel : Wheel
  terminals : List PruneEntry := []

structure Round where
  now : Time
  maxIn : Nat
  overlay : Table String SagaState := ∅
  touched : List String := []
  events : List LogEvent := []
  eventAt : Table String Nat := ∅
  verdicts : List PendingVerdict := []
  counts : PartitionCounts := {}

def Partition.newRound (p : Partition) (now : Time) : Round := { now, maxIn := p.inHi }

namespace Round

/-- The state of a saga as the round sees it. -/
def get (p : Partition) (r : Round) (id : String) : Option SagaState :=
  match r.overlay.get id with
  | some st => some st
  | none => p.sagas.get id

def put (r : Round) (st : SagaState) : Round :=
  let id := st.record.id
  { r with
    touched := if (r.overlay.get id).isSome then r.touched else r.touched ++ [id]
    overlay := r.overlay.set id st }

/-- An event without a command whose saga goes on is replaced by the next one of its
saga in the round. -/
def emit (o : Options) (r : Round) (st : SagaState) (kind : String) (command : Option Command) :
    Round :=
  let ev : LogEvent :=
    { v := 0, part := o.k, writer := o.writer, in_ := 0, at_ := r.now, kind, saga := st,
      command }
  let id := st.record.id
  let replaced := (r.eventAt.get id).filter fun i =>
    match r.events[i]? with
    | some prior => prior.command.isNone && !prior.saga.record.status.terminal
    | none => false
  match replaced with
  | some i => { r with events := r.events.set i ev }
  | none => { r with eventAt := r.eventAt.set id r.events.length, events := r.events ++ [ev] }

/-- Every change of a saga goes through the overlay and leaves an event. -/
def write (o : Options) (r : Round) (st : SagaState) (kind : String)
    (command : Option Command) : Round :=
  (r.put st).emit o st kind command

def count (r : Round) (change : PartitionCounts → PartitionCounts) : Round :=
  { r with counts := change r.counts }

def verdict (r : Round) (v : PendingVerdict) : Round :=
  if v.reply = "" then r else { r with verdicts := r.verdicts ++ [v] }

def rejectInput (r : Round) : Round :=
  r.count fun c => { c with rejectedInputs := c.rejectedInputs + 1 }

variable [Digest] (o : Options) (registry : Registry) (p : Partition)

/-- A start intent creates its saga unless the ID is taken or the gate is closed. -/
def start (r : Round) (msg : InputMsg) : Round :=
  match decodeStartInput msg.data with
  | .error err =>
      r.rejectInput.verdict
        { reply := msg.reply, attempt := "", outcome := .invalid, err := some err }
  | .ok input =>
      let answer (r : Round) (v : PendingVerdict) : Round :=
        r.verdict { v with reply := msg.reply, attempt := input.attempt }
      match prepareStart input.request o.maxPayload with
      | .error err => answer r { reply := "", attempt := "", outcome := .invalid, err := some err }
      | .ok request =>
          if (registry request.type request.definitionVersion).isNone then
            answer r { reply := "", attempt := "", outcome := .definitionMissing,
                       err := some (.definitionMissing request.type request.definitionVersion) }
          else
            let id := Digest.id request.type request.businessKey
            let created : Except Error Record := do
              let record ← newStartRecord request id msg.lifecycle r.now
              if record.startDigest ≠ input.digest then .error .startDigestDiffers else .ok record
            match created with
            | .error err =>
                answer r.rejectInput
                  { reply := "", attempt := "", outcome := .invalid, err := some err }
            | .ok record =>
                if o.layout.partitionOf id ≠ o.k then
                  answer r.rejectInput { reply := "", attempt := "", outcome := .invalid }
                else match r.get p id with
                | some existing =>
                    answer r { reply := "", attempt := "", id,
                               outcome := if existing.record.startDigest = record.startDigest
                                 then .existing else .identityConflict }
                | none =>
                    match msg.closed with
                    | some reason =>
                        answer (r.count fun c =>
                            { c with admissionRejected := c.admissionRejected + 1 })
                          { reply := "", attempt := "", outcome := .rejected, reason }
                    | none =>
                        let st : SagaState :=
                          { record := { record with startAttempt := input.attempt } }
                        answer ((r.write o st "start" none).count fun c =>
                            { c with started := c.started + 1 })
                          { reply := "", attempt := "", outcome := .accepted, id }

/-- What a verdict on a result does to the round; `before` is the record it read. -/
def concluded (r : Round) (before : Record) : ResultOutcome → Round
  | .staleIncarnation => r.count fun c => { c with staleIncarnation := c.staleIncarnation + 1 }
  | .staleAttempt => r.count fun c => { c with staleAttempt := c.staleAttempt + 1 }
  | .duplicate => r.count fun c => { c with duplicates := c.duplicates + 1 }
  | .rejected _ _ => r.rejectInput
  | .accepted next =>
      (r.write o next "result" none).count fun c => c.addTerminal next.record.status
  | .lateStep next =>
      (r.write o next "late_success" none).count fun c =>
        { c with
          lateAfterAbandon := c.lateAfterAbandon + 1
          reopened :=
            if before.status = .failed ∨ before.status = .compensated then c.reopened + 1
            else c.reopened }
  | .lateAlarm next =>
      (r.write o next "late_alarm" none).count fun c =>
        { c with lateAfterAbandon := c.lateAfterAbandon + 1 }

/-- The time of a result is the round's. -/
def result (r : Round) (msg : InputMsg) : Round :=
  match decodeResultInput o.maxPayload msg.data with
  | .error _ => r.rejectInput
  | .ok c =>
      let c := { c with completedAt := r.now }
      if ¬ ofSaga c then r.rejectInput
      else
        let unknown := r.count fun c => { c with unknownSaga := c.unknownSaga + 1 }
        match r.get p c.sagaID with
        | none => unknown
        | some st =>
            if ¬ ofLifecycle c st.record.lifecycle then unknown
            else
              r.concluded o st.record
                (st.result (registry st.record.type st.record.definitionVersion) c)

def refusal : Error → Outcome
  | .deadlineExpired => .deadlineExpired
  | .definitionMissing _ _ => .definitionMissing
  | .receiptsExpired => .receiptsExpired
  | .invalidRecord => .invalid
  | _ => .refused

/-- What an operator's intent does to the round, with the kind of its event. -/
def operated (r : Round) (input : OpInput) (reply : String) (before : Record) (kind : String) :
    OpOutcome → Round
  | .refused err =>
      r.verdict { reply, attempt := input.attempt, outcome := refusal err, err := some err }
  | .unchanged record =>
      r.verdict { reply, attempt := input.attempt, outcome := .unchanged,
                  record := some record }
  | .sagaCompleted record =>
      r.verdict { reply, attempt := input.attempt, outcome := .sagaCompleted,
                  record := some record }
  | .applied next =>
      ((r.write o next kind none).count fun c =>
          if before.lateStep = 0 then c else { c with reopened := c.reopened + 1 }).verdict
        { reply, attempt := input.attempt, outcome := .accepted, id := input.id }

def operation (r : Round) (msg : InputMsg) : Round :=
  match decodeOpInput msg.data with
  | .error err =>
      r.rejectInput.verdict
        { reply := msg.reply, attempt := "", outcome := .invalid, err := some err }
  | .ok input =>
      match r.get p input.id with
      | none =>
          r.verdict { reply := msg.reply, attempt := input.attempt, outcome := .notFound }
      | some st =>
          let definition := registry st.record.type st.record.definitionVersion
          match input.kind, input.resume with
          | some .resume, some request =>
              r.operated o input msg.reply st.record "resume"
                (st.resume o.receiptRetention definition request input.now r.now)
          | some .compensate, _ =>
              r.operated o input msg.reply st.record "compensate"
                (st.compensate o.receiptRetention definition input.reason input.now r.now)
          | _, _ => r

def input (r : Round) (msg : InputMsg) : Round :=
  if msg.seq ≤ p.inHi then r
  else
    let r := { r with maxIn := max r.maxIn msg.seq }
    match msg.kind with
    | .start => r.start o registry p msg
    | .res => r.result o registry p msg
    | .op => r.operation o registry p msg
    | .other => r.rejectInput

/-- A due record; the command it dispatches names the partition as a `uint16`. -/
def due (r : Round) (st : SagaState) : Round :=
  let (next, plan) :=
    st.due (registry st.record.type st.record.definitionVersion) r.now
  (r.write o next (eventKindOf plan.cause)
      (plan.command.map fun command => { command with partition := o.k % 2 ^ 16 })).count fun c =>
    match plan.cause with
    | .dispatch => { c with dispatched := c.dispatched + 1 }
    | .invalidStep => { c with failed := c.failed + 1, manualRequired := c.manualRequired + 1 }
    | _ => c.addTerminal next.record.status

/-- A timer is only a hint: the record's own time decides, on the clock of the wheel. -/
def timer (r : Round) (id : String) : Round :=
  match r.get p id with
  | none => r
  | some st =>
      if st.record.status.terminal ∨ Time.unixNano r.now < Time.unixNano st.record.nextRunAt then r
      else r.due o registry st

/-- The loop over the due timers, each saga once. -/
def timers (seen : List String) : List String → Round → Round
  | [], r => r
  | id :: rest, r =>
      if seen.contains id then timers seen rest r
      else timers (id :: seen) rest (r.timer o registry p id)

end Round

variable [Digest]

/-- The loop over the inputs of a round. -/
def Partition.inputs (o : Options) (registry : Registry) (p : Partition) (batch : List InputMsg)
    (now : Time) : Round :=
  batch.foldl (Round.input o registry p) (p.newRound now)

/-- The round and the partition with its wheel advanced. Results of the batch come
before the timeouts of the round. -/
def Partition.decide (o : Options) (registry : Registry) (p : Partition) (batch : List InputMsg)
    (now : Time) : Round × Partition :=
  let r := p.inputs o registry batch now
  let (wheel, due) := p.wheel.advance now
  (Round.timers o registry p [] (due ++ r.touched) r, { p with wheel })

def prunable (status : Status) : Bool :=
  status == .completed || status == .compensated || status == .failed

/-- Registers a saga with the wheel or the prune queue. -/
def Partition.enlist (p : Partition) (id : String) (st : SagaState) : Partition :=
  if ¬ st.record.status.terminal then { p with wheel := p.wheel.schedule id st.record.nextRunAt }
  else if st.record.status ≠ .manualRequired then
    { p with terminals := p.terminals ++ [{ id, updatedAt := st.record.updatedAt }] }
  else p

/-- One saga of the overlay becomes committed. -/
def Partition.place (r : Round) (p : Partition) (id : String) : Partition :=
  match r.overlay.get id with
  | some st => { p with sagas := p.sagas.set id st }.enlist id st
  | none => p

/-- The in-memory half of a commit, after the events are durable. -/
def Partition.install (p : Partition) (r : Round) (lastEv : Nat) : Partition :=
  let p :=
    if r.events.length = 0 then p
    else r.touched.foldl (Partition.place r) { p with lastEv }
  { p with inHi := r.maxIn }

def pruneBatch : Nat := 1024

/-- The loop of `prune`, with the number of records it may still drop. -/
def pruneLoop (cutoff : Time) : Nat → List PruneEntry → Table String SagaState →
    List PruneEntry × Table String SagaState
  | 0, queue, sagas => (queue, sagas)
  | _ + 1, [], sagas => ([], sagas)
  | budget + 1, head :: rest, sagas =>
      if ¬ head.updatedAt < cutoff then (head :: rest, sagas)
      else match sagas.get head.id with
      | some st =>
          if st.record.updatedAt = head.updatedAt ∧ prunable st.record.status then
            pruneLoop cutoff budget rest (sagas.remove head.id)
          else pruneLoop cutoff budget rest sagas
      | none => pruneLoop cutoff budget rest sagas

def Partition.prune (o : Options) (p : Partition) (now : Time) : Partition :=
  let (terminals, sagas) := pruneLoop (now - o.terminalRetention) pruneBatch p.terminals p.sagas
  { p with terminals, sagas }

end Roost.Saga
