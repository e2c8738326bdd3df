import RoostCore.Saga.Life
import RoostCore.Saga.Partition

/-! One partition with its log, its snapshots and its single writer (`partition.go`,
`partition_replay.go`). The server keeps the messages of the partition, the manifest and
the snapshot bodies; the process keeps the committed state and may stop between any two
steps, also between two chunks of one round. Publishes are fenced and atomic per chunk,
sequences grow, and a purge removes exactly the messages below its bound. -/
namespace Roost.Saga
open Go

/-- The most messages of one atomic publish. -/
def logBatchMaxMessages : Nat := 1000

inductive LogBody where
  | input (kind : InputKind) (data : InputData) (reply : String)
  | event (ev : LogEvent)

structure LogMsg where
  seq : Nat
  body : LogBody

def LogMsg.event? (msg : LogMsg) : Option LogEvent :=
  match msg.body with
  | .event ev => some ev
  | .input _ _ _ => none

/-- The sequence of the last event, zero without events. -/
def lastEvent (log : List LogMsg) : Nat :=
  ((log.filter (·.event?.isSome)).getLast?.map LogMsg.seq).getD 0

/-- The sequence of the last message, zero without messages. -/
def lastSeq (log : List LogMsg) : Nat := (log.getLast?.map LogMsg.seq).getD 0

def snapshotObject (k lastEv : Nat) : String := "p" ++ toString k ++ "-" ++ toString lastEv

/-- The manifest of a snapshot; `sum` is the body whose size and SHA-256 it records. -/
structure Manifest where
  v : UInt16
  part : Nat
  layout : Layout
  lastEv : Nat
  inHi : Nat
  object : String
  sum : List SagaState

def decodeManifest (o : Options) (m : Manifest) : Except Error Manifest :=
  if m.v ≠ wireVersion ∨ m.part ≠ o.k ∨ m.layout ≠ o.layout ∨ m.object = "" ∨ m.lastEv = 0 then
    .error .snapshotIncompatible
  else .ok m

def decodeSnapshotBody (o : Options) (body : List SagaState) (m : Manifest) :
    Except Error (List SagaState) :=
  if body ≠ m.sum then .error .snapshotIncompatible
  else if body.any (fun st => st.validate ≠ .ok () || o.layout.partitionOf st.record.id ≠ o.k) then
    .error .snapshotIncompatible
  else .ok body

structure Server where
  last : Nat := 0
  log : List LogMsg := []
  manifest : Option Manifest := none
  objects : Table String (List SagaState) := ∅

structure Replayed where
  sagas : Table String SagaState := ∅
  lastEv : Nat := 0
  inHi : Nat := 0
  pending : List LogMsg := []

/-- The state of the snapshot, empty without one. -/
def Server.snapshot (o : Options) (server : Server) : Except Error Replayed :=
  match server.manifest with
  | none => .ok {}
  | some m => do
      let m ← decodeManifest o m
      match server.objects.get m.object with
      | none => .error .snapshotIncompatible
      | some body =>
          let states ← decodeSnapshotBody o body m
          .ok { sagas := states.foldl (fun sagas st => sagas.set st.record.id st) ∅
                lastEv := m.lastEv, inHi := m.inHi }

/-- One message of the range; `base` is the state of the snapshot. -/
def Replayed.read (o : Options) (base r : Replayed) (msg : LogMsg) : Except Error Replayed :=
  match msg.body with
  | .input _ _ _ =>
      .ok (if base.inHi < msg.seq then { r with pending := r.pending ++ [msg] } else r)
  | .event ev =>
      if msg.seq ≤ base.lastEv then .ok r
      else do
        let ev ← decodeEvent o.layout o.k ev
        .ok { r with
          sagas := r.sagas.set ev.saga.record.id ev.saga, lastEv := msg.seq,
          inHi := max r.inHi ev.in_ }

/-- The snapshot and the messages after it; the inputs above the watermark are left to
the loop. -/
def replayOnce (o : Options) (server : Server) : Except Error Replayed := do
  let base ← server.snapshot o
  let first := min base.lastEv base.inHi + 1
  let range := server.log.filter fun msg => first ≤ msg.seq ∧ msg.seq ≤ lastSeq server.log
  let r ← range.foldlM (Replayed.read o base) base
  .ok { r with pending := r.pending.filter fun msg => r.inHi < msg.seq }

/-- The committed state of a partition that starts at `now`. -/
def replayPartition (o : Options) (r : Replayed) (now : Time) : Partition :=
  let sagas := r.sagas.pairs
  { sagas := r.sagas, lastEv := r.lastEv, inHi := r.inHi
    wheel := (sagas.filter fun (_, st) => !st.record.status.terminal).foldl
      (fun wheel (id, st) => wheel.schedule id st.record.nextRunAt)
      (newWheel o.tick o.wheelSlots now)
    terminals := ((sagas.filter fun (_, st) => prunable st.record.status).map
      fun (id, st) => { id, updatedAt := st.record.updatedAt }).mergeSort
        fun a b => decide (a.updatedAt ≤ b.updatedAt) }

/-- What the loop hands to the snapshot. -/
structure SnapshotView where
  sagas : List SagaState
  lastEv : Nat
  inHi : Nat

/-- The body lists the sagas by ID. -/
def Partition.view (p : Partition) : SnapshotView :=
  { sagas := (p.sagas.pairs.map (·.2)).mergeSort fun a b => Decidable.decide (a.record.id ≤ b.record.id)
    lastEv := p.lastEv, inHi := p.inHi }

def SnapshotView.manifest (o : Options) (view : SnapshotView) : Manifest :=
  { v := wireVersion, part := o.k, layout := o.layout, lastEv := view.lastEv, inHi := view.inHi,
    object := snapshotObject o.k view.lastEv, sum := view.sagas }

/-- The bound of a purge, exclusive: the last event and everything a replay or a
durable consumer still needs is kept. -/
def purgeBound (view : SnapshotView) (floors : List Nat) : Nat :=
  floors.foldl (fun bound floor => min bound (floor + 1)) (min (view.inHi + 1) view.lastEv)

/-- How far a snapshot has come. -/
inductive SnapshotStage where
  | taken | stored
  | listed (previous : String)
  | cleaned
  deriving DecidableEq, Repr

structure Snapshotting where
  view : SnapshotView
  stage : SnapshotStage

/-- A round between its decision and its installation, with the events that are not
published yet and the sequence the next chunk expects. -/
structure Publishing where
  round : Round
  rest : List LogEvent
  last : Nat

structure Process where
  partition : Partition
  publishing : Option Publishing := none
  sinceSnapshot : Nat := 0
  snapshot : Option Snapshotting := none
  snapshotObject : String := ""

/-- The server, all messages it ever stored, and the process while it runs. -/
structure Deployment where
  server : Server := {}
  history : List LogMsg := []
  process : Option Process := none

inductive Act where
  /-- An input reaches the log. -/
  | arrive (kind : InputKind) (data : InputData) (reply : String)
  /-- Other partitions of the stream take sequences. -/
  | elsewhere (messages : Nat)
  | decide (registry : Registry) (batch : List InputMsg) (now : Time)
  | publish
  | install
  | prune (now : Time)
  | takeSnapshot
  | putObject
  /-- The manifest is written; the answer may be lost. -/
  | putManifest (reported : Bool)
  | dropObject
  | purge (floors : List Nat)
  | abandonSnapshot
  | crash
  | start (now : Time)

def stored (last : Nat) : List LogBody → List LogMsg
  | [] => []
  | body :: rest => { seq := last + 1, body } :: stored (last + 1) rest

/-- The server stores messages at the next sequences. -/
def Deployment.store (d : Deployment) (bodies : List LogBody) : Deployment :=
  let msgs := stored d.server.last bodies
  { d with
    server := { d.server with
      last := d.server.last + bodies.length, log := d.server.log ++ msgs }
    history := d.history ++ msgs }

/-- The messages of the next chunk. Only the last chunk carries the round's watermark. -/
def Publishing.chunk (pub : Publishing) (p : Partition) : List LogBody :=
  let watermark :=
    if pub.rest.length ≤ logBatchMaxMessages then pub.round.maxIn else p.inHi
  (pub.rest.take logBatchMaxMessages).map fun ev => .event (encodeEvent { ev with in_ := watermark })

/-- One fenced publish; a process whose fence is refused stops. -/
def Deployment.publish (d : Deployment) (proc : Process) (pub : Publishing) : Deployment :=
  if lastEvent d.server.log ≠ pub.last then { d with process := none }
  else
    let next := d.store (pub.chunk proc.partition)
    let pub := { pub with rest := pub.rest.drop logBatchMaxMessages, last := next.server.last }
    { next with process := some { proc with publishing := some pub } }

variable [Digest]

def Deployment.work (o : Options) (d : Deployment) (proc : Process) : Act → Deployment
  | .decide registry batch now =>
      match proc.publishing with
      | some _ => d
      | none =>
          let (round, partition) := proc.partition.decide o registry batch now
          let pub := { round, rest := round.events, last := partition.lastEv }
          { d with process := some { proc with partition, publishing := some pub } }
  | .publish =>
      match proc.publishing with
      | none => d
      | some pub => if pub.rest = [] then d else d.publish proc pub
  | .install =>
      match proc.publishing with
      | none => d
      | some pub =>
          if pub.rest ≠ [] then d
          else
            { d with process := some { proc with
                partition := proc.partition.install pub.round pub.last
                publishing := none
                sinceSnapshot := proc.sinceSnapshot + pub.round.events.length } }
  | .prune now =>
      match proc.publishing with
      | some _ => d
      | none => { d with process := some { proc with partition := proc.partition.prune o now } }
  | .takeSnapshot =>
      if proc.publishing.isSome ∨ proc.snapshot.isSome ∨ proc.sinceSnapshot = 0 then d
      else
        let snapshot := { view := proc.partition.view, stage := .taken }
        { d with process := some { proc with snapshot := some snapshot, sinceSnapshot := 0 } }
  | .putObject =>
      match proc.snapshot with
      | some { view, stage := .taken } =>
          let object := Saga.snapshotObject o.k view.lastEv
          { d with
            server := { d.server with objects := d.server.objects.set object view.sagas }
            process := some { proc with snapshot := some { view, stage := .stored } } }
      | _ => d
  | .putManifest reported =>
      match proc.snapshot with
      | some { view, stage := .stored } =>
          let manifest := view.manifest o
          let listed := { view, stage := .listed proc.snapshotObject }
          { d with
            server := { d.server with manifest := some manifest }
            process := some (if reported then
                { proc with snapshot := some listed, snapshotObject := manifest.object }
              else { proc with snapshot := none }) }
      | _ => d
  | .dropObject =>
      match proc.snapshot with
      | some { view, stage := .listed previous } =>
          let objects :=
            if previous ≠ "" ∧ previous ≠ Saga.snapshotObject o.k view.lastEv then
              d.server.objects.remove previous
            else d.server.objects
          { d with
            server := { d.server with objects }
            process := some { proc with snapshot := some { view, stage := .cleaned } } }
      | _ => d
  | .purge floors =>
      match proc.snapshot with
      | some { view, stage := .cleaned } =>
          let bound := purgeBound view floors
          { d with
            server := { d.server with log := d.server.log.filter fun msg => bound ≤ msg.seq }
            process := some { proc with snapshot := none } }
      | _ => d
  | .abandonSnapshot => { d with process := some { proc with snapshot := none } }
  | .crash => { d with process := none }
  | _ => d

def Deployment.step (o : Options) (d : Deployment) (act : Act) : Deployment :=
  match act, d.process with
  | .arrive kind data reply, _ => d.store [.input kind data reply]
  | .elsewhere messages, _ =>
      { d with server := { d.server with last := d.server.last + messages } }
  | .start now, none =>
      match replayOnce o d.server with
      | .error _ => d
      | .ok r =>
          if lastEvent d.server.log ≠ r.lastEv then d
          else
            let object := (d.server.manifest.map Manifest.object).getD ""
            let proc := { partition := replayPartition o r now, snapshotObject := object }
            { d with process := some proc }
  | act, some proc => d.work o proc act
  | _, none => d

/-! One partition that holds the saga of the sample. -/
namespace Sample

def options : Options :=
  { layout := ⟨1, by decide⟩, k := 0, owned := by decide, writer := "node", named := by decide,
    maxPayload := 1024, receiptRetention := 168 * 3600 * second, terminalRetention := 3600 * second,
    tick := second, wheelSlots := 8 }

def registry : Registry where
  definition type version := if type = "order" ∧ version = 1 then some definition else none
  valid type version d registered := by
    have same : definition = d := by simpa using (Option.ite_none_right_eq_some.mp registered).2
    rw [← same]
    decide

def intent : InputData :=
  .start { v := wireVersion, request, attempt := "first",
           digest := Digest.tail.intent "order" "42" 1 [] 0 }

def message (seq : Nat) : InputMsg :=
  { seq, kind := .start, data := intent, reply := "inbox", lifecycle := "L", closed := none }

/-- A start is decided, published and installed. -/
def opening : List Act :=
  [.start now, .arrive .start intent "inbox", .decide registry [message 1] now, .publish, .install]

end Sample

end Roost.Saga
