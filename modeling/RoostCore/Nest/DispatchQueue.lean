import Mathlib.Data.List.Destutter
import Mathlib.Data.List.Sort
import RoostCore.Turns

/-! The dispatch queue: three lanes of workers, the order of jobs that share a target, jobs
that carry a batch of single targets, and the bookkeeping of Await reservations. Each
function with `Locked` in its name runs under the queue's mutex; an input is one critical
section, or the part of one that ends where a worker takes its next item. -/
namespace Roost.Nest
open Function

inductive Lane where
  | short
  | io
  | long
  deriving DecidableEq, Repr

structure WorkerPoolConfig where
  workers : Nat
  queueCap : Int
  deriving DecidableEq, Repr

/-- The target fields of a message. -/
structure DispatchMsg where
  tid : Int := 0
  tids : List Int := []
  groupTIds : List (List Int) := []
  deriving DecidableEq, Repr

/-- `dispatchIDs`: the targets sorted and without repetition. -/
def dispatchIDs (msg : DispatchMsg) : List Int :=
  let ids := (if msg.tid = 0 then [] else [msg.tid]) ++ msg.tids ++ msg.groupTIds.flatten
  let ids := if ids.isEmpty then [0] else ids
  (ids.insertionSort (· ≤ ·)).destutter (· ≠ ·)

/-- The target set that `newDispatchJob` fixes. A message without a target keeps its order
on ID 0. -/
def jobIDs (msg : DispatchMsg) : List Int :=
  match msg.tids, msg.groupTIds with
  | [], [] => [msg.tid]
  | [id], [] => if msg.tid = 0 then [id] else dispatchIDs msg
  | _, _ => dispatchIDs msg

/-- `businessLane`; `long` says which IDs are of a kind registered for the long pool. -/
def businessLane (long : Int → Bool) (msg : DispatchMsg) : Lane :=
  let isLong := fun id => decide (id ≠ 0) && long id
  if isLong msg.tid || msg.tids.any isLong || msg.groupTIds.any (·.any isLong) then .long
  else .short

/-- A pointer to a `dispatchJob`: one of its own, the one inside a pooled batch, or the
claim marker of a batch for the target at a position of its current group. -/
inductive Ref where
  | job (n : Nat)
  | batch (b : Nat)
  | claim (b i : Nat)
  deriving DecidableEq, Repr

structure DispatchJob where
  lane : Lane := .short
  continuation : Bool := false
  deriving DecidableEq, Repr

/-- One lane. The last four fields are its goroutines: those about to take their next item,
those waiting on `wake`, those in the action that follows an item, those that have
returned; `executing` is what the others have in hand. -/
structure DispatchLane where
  config : WorkerPoolConfig
  continuations : List Ref := []
  continuationCount : Int := 0
  continuationRunning : Int := 0
  preferContinuation : Bool := false
  ready : List Ref := []
  tryBatches : List Ref := []
  preferOrdinary : Bool := false
  queued : Int := 0
  readyCount : Int := 0
  running : Int := 0
  executing : List Ref := []
  awake : Nat := 0
  parked : Nat := 0
  acting : Nat := 0
  exited : Nat := 0
  deriving DecidableEq, Repr

namespace DispatchLane
variable (s : DispatchLane)

/-- `wake.Signal`. -/
def signal : DispatchLane :=
  if s.parked = 0 then s else { s with parked := s.parked - 1, awake := s.awake + 1 }

/-- `wake.Broadcast`. -/
def broadcast : DispatchLane := { s with parked := 0, awake := s.awake + s.parked }

def busyWorkers (lane : Lane) : Int :=
  if lane = .io then s.running else s.running + s.continuationRunning

/-- The execution slot of an item that has ended. -/
def giveBack (continuation : Bool) : DispatchLane :=
  if continuation then { s with continuationRunning := s.continuationRunning - 1 }
  else { s with running := s.running - 1 }

/-- The counts of the lane when an external item starts. -/
def startExternal (lane : Lane) : DispatchLane :=
  { s with
    queued := s.queued - 1, readyCount := s.readyCount - 1, running := s.running + 1
    preferContinuation := if lane = .io then s.preferContinuation else true }

/-- Batches and ordinary jobs take turns where both are ready. -/
def takeExternal (lane : Lane) : Option (Ref × DispatchLane) :=
  let batch := fun b rest =>
    some (b, { s with tryBatches := rest, preferOrdinary := true }.startExternal lane)
  let ordinary := fun j rest =>
    some (j, { s with ready := rest, preferOrdinary := false }.startExternal lane)
  match s.tryBatches, s.ready with
  | [], [] => none
  | b :: rest, [] => batch b rest
  | [], j :: rest => ordinary j rest
  | b :: restBatches, j :: rest => if s.preferOrdinary then ordinary j rest else batch b restBatches

/-- `take`: the next item and the lane without it. A business lane prefers a continuation
after each external item it has started. -/
def take (lane : Lane) : Option (Ref × DispatchLane) :=
  match s.continuations with
  | c :: rest =>
      if lane ≠ .io ∧ (s.preferContinuation ∨ s.ready = [] ∧ s.tryBatches = []) then
        some (c, { s with
          preferContinuation := false
          continuationCount := s.continuationCount - 1
          continuationRunning := s.continuationRunning + 1
          continuations := rest })
      else s.takeExternal lane
  | [] => s.takeExternal lane

end DispatchLane

inductive TryBatchStep where
  | run
  | converted
  | handBack
  deriving DecidableEq, Repr

/-- Why a target is handed back without having run. -/
inductive HandBack where
  | closed
  | full
  | fenced
  | refused
  deriving DecidableEq, Repr

structure TryBatchPlan where
  step : TryBatchStep := .run
  claimed : Bool := false
  busy : Bool := false
  handBack : Option HandBack := none
  deriving DecidableEq, Repr

/-- Where a batch object is: in the pool, ready in its lane, in a worker that executes the
current group, or in one that leaves the loop (with or without targets left). -/
inductive TryBatchStage where
  | pooled
  | queued
  | running
  | leaving (yield : Bool)
  deriving DecidableEq, Repr

structure TryBatchJob where
  stage : TryBatchStage := .pooled
  group : Nat → TryBatchPlan := fun _ => {}
  groupN : Nat := 0
  lane : Lane := .short
  items : List Int := []
  next : Nat := 0

def tryBatchGroup : Nat := 4

/-- What the queue did, by the number each job got when it was accepted. -/
inductive QueueEvent where
  | admitted (n : Nat) (ids : List Int)
  | started (n : Nat)
  | ended (n : Nat)
  | claimed (b : Nat) (id : Int)
  | unclaimed (b : Nat) (id : Int)
  deriving DecidableEq, Repr

/-- The queue with the heap of its jobs. `serials` gives the number under which a batch
object was accepted last, `plans` the Await plans that hold a reservation, `history` what
happened so far, newest first. -/
structure DispatchQueue where
  lanes : Lane → DispatchLane
  turns : Turns Ref Int := .empty
  pending : Int := 0
  awaitReserved : Int := 0
  started : Bool := false
  stopping : Bool := false
  fenced : Bool := false
  jobs : Ref → DispatchJob := fun _ => {}
  batches : Nat → TryBatchJob := fun _ => {}
  nextJob : Nat := 0
  serials : Nat → Nat := fun _ => 0
  nextPlan : Nat := 0
  plans : List Nat := []
  history : List QueueEvent := []

namespace DispatchQueue
variable (q : DispatchQueue)

def setLane (lane : Lane) (s : DispatchLane) : DispatchQueue :=
  { q with lanes := update q.lanes lane s }

def setBatch (b : Nat) (batch : TryBatchJob) : DispatchQueue :=
  { q with batches := update q.batches b batch }

def setPlan (b i : Nat) (plan : TryBatchPlan) : DispatchQueue :=
  q.setBatch b { q.batches b with group := update (q.batches b).group i plan }

def setGroupN (b n : Nat) : DispatchQueue := q.setBatch b { q.batches b with groupN := n }

def setStage (b : Nat) (stage : TryBatchStage) : DispatchQueue :=
  q.setBatch b { q.batches b with stage }

def log (event : QueueEvent) : DispatchQueue := { q with history := event :: q.history }

def serial : Ref → Nat
  | .job n => n
  | .batch b => q.serials b
  | .claim _ _ => 0

def broadcastAll : DispatchQueue := { q with lanes := fun lane => (q.lanes lane).broadcast }

def start : DispatchQueue :=
  if q.started || q.stopping then q
  else
    { q with
      started := true
      lanes := fun lane =>
        let s := q.lanes lane
        { s with awake := s.awake + s.config.workers } }

/-- `waitingCount`: requests that wait, without those that have an idle worker. -/
def waitingCount (lane : Lane) : Int :=
  let s := q.lanes lane
  let await := if lane = .io then q.awaitReserved else 0
  let reserved := min (s.readyCount + await) (max 0 (s.config.workers - s.busyWorkers lane))
  s.queued + await - reserved

def enqueueReady (lane : Lane) (j : Ref) : DispatchQueue :=
  let s := q.lanes lane
  let s := { s with readyCount := s.readyCount + 1 }
  let s := match j with
    | .batch _ => { s with tryBatches := s.tryBatches ++ [j] }
    | _ => { s with ready := s.ready ++ [j] }
  q.setLane lane s.signal

/-- No worker of the lane is free for the job and there is no room left to wait. -/
def isFull (lane : Lane) (ids : List Int) : Bool :=
  let s := q.lanes lane
  let blocked := ids.any fun id => (q.turns.tails id).isSome
  let reserved := if lane = .io then q.awaitReserved else 0
  let hasExecutionSlot :=
    !blocked && decide (s.busyWorkers lane + s.readyCount + reserved < s.config.workers)
  !hasExecutionSlot && decide (s.config.queueCap ≤ q.waitingCount lane)

/-- The new job behind the last holders of its IDs. -/
def registerLocked (lane : Lane) (ids : List Int) : DispatchQueue :=
  let j := Ref.job q.nextJob
  let s := q.lanes lane
  let turns := (q.turns.allocate j ids).register j
  let q := { q with
    turns
    jobs := update q.jobs j { lane }
    nextJob := q.nextJob + 1
    pending := q.pending + 1
    history := .admitted q.nextJob ids :: q.history }
  let q := q.setLane lane { s with queued := s.queued + 1 }
  if turns.predecessors j = 0 then q.enqueueReady lane j else q

def admitLocked (lane : Lane) (ids : List Int) : Except HandBack DispatchQueue :=
  if q.isFull lane ids then .error .full else .ok (q.registerLocked lane ids)

def admitMsg (long : Int → Bool) (msg : DispatchMsg) (prepareIo : Bool) :
    Except HandBack DispatchQueue :=
  let lane := if prepareIo then .io else businessLane long msg
  if !q.started || q.stopping then .error .closed else q.admitLocked lane (jobIDs msg)

def pushContinuationLocked (lane : Lane) : DispatchQueue :=
  let j := Ref.job q.nextJob
  let s := q.lanes lane
  let s := { s with
    continuations := s.continuations ++ [j]
    continuationCount := s.continuationCount + 1 }
  let q := { q with
    jobs := update q.jobs j { lane, continuation := true }
    nextJob := q.nextJob + 1
    pending := q.pending + 1
    history := .admitted q.nextJob [] :: q.history }
  q.setLane lane s.signal

/-- `releaseIDsLocked`. Making a successor ready does not touch the counts that the loop
reads, so those let go become ready after the loop, in its order. -/
def releaseIDsLocked (j : Ref) : DispatchQueue :=
  let (turns, freed) := q.turns.release j
  freed.foldl (fun q next => q.enqueueReady (q.jobs next).lane next) { q with turns }

def finishJobLocked (lane : Lane) (j : Ref) : DispatchQueue :=
  let s := (q.lanes lane).giveBack (q.jobs j).continuation
  let q := (q.setLane lane s).releaseIDsLocked j
  let q := { q with pending := q.pending - 1, history := .ended (q.serial j) :: q.history }
  if q.stopping ∧ q.pending = 0 then q.broadcastAll else q

def rerouteToIo (j : Ref) : DispatchQueue :=
  let lane := (q.jobs j).lane
  let s := q.lanes lane
  let q := q.setLane lane { s with running := s.running - 1 }
  let q := { q with jobs := update q.jobs j { q.jobs j with lane := .io } }
  let io := q.lanes .io
  (q.setLane .io { io with queued := io.queued + 1 }).enqueueReady .io j

def reserveAwait : Except HandBack DispatchQueue :=
  let io := q.lanes .io
  if q.stopping || !q.started then .error .closed
  else if (io.config.workers : Int) + io.config.queueCap ≤ q.awaitReserved + io.queued + io.running
  then .error .full
  else .ok { q with
    awaitReserved := q.awaitReserved + 1
    pending := q.pending + 1
    plans := q.nextPlan :: q.plans
    nextPlan := q.nextPlan + 1 }

def cancelAwait (plan : Nat) : DispatchQueue :=
  let q := { q with
    awaitReserved := q.awaitReserved - 1
    pending := q.pending - 1
    plans := q.plans.erase plan }
  if q.stopping ∧ q.pending = 0 then q.broadcastAll else q

def startAwait (plan : Nat) : DispatchQueue :=
  let j := Ref.job q.nextJob
  let io := q.lanes .io
  let q := { q with
    awaitReserved := q.awaitReserved - 1
    jobs := update q.jobs j { lane := .io }
    nextJob := q.nextJob + 1
    plans := q.plans.erase plan
    history := .admitted q.nextJob [] :: q.history }
  (q.setLane .io { io with queued := io.queued + 1 }).enqueueReady .io j

/-- A batch registers no ID; it is ready in its lane at once. -/
def registerTryBatch (b : Nat) (lane : Lane) (items : List Int) : DispatchQueue :=
  let j := Ref.batch b
  let s := q.lanes lane
  let q := q.setBatch b { stage := .queued, lane, items }
  let q := { q with
    jobs := update q.jobs j { lane }
    serials := update q.serials b q.nextJob
    nextJob := q.nextJob + 1
    pending := q.pending + 1
    history := .admitted q.nextJob [] :: q.history }
  (q.setLane lane { s with queued := s.queued + 1 }).enqueueReady lane j

/-- `newTryBatchJob` with its targets added, and `admitTryBatch`. A refused batch goes back
to the pool. -/
def admitTryBatch (b : Nat) (lane : Lane) (items : List Int) : Except HandBack DispatchQueue :=
  let s := q.lanes lane
  let hasExecutionSlot := decide (s.busyWorkers lane + s.readyCount < s.config.workers)
  if !q.started || q.stopping then .error .closed
  else if !hasExecutionSlot && decide (s.config.queueCap ≤ q.waitingCount lane) then .error .full
  else .ok (q.registerTryBatch b lane items)

/-- `convertTryBatchTargetLocked`: the target becomes a job of its own. -/
def convertTryBatchTargetLocked (b : Nat) (id : Int) : Except HandBack DispatchQueue :=
  if q.stopping then .error .closed
  else if q.fenced then .error .fenced
  else q.admitLocked (q.batches b).lane (jobIDs { tid := id })

def ownsClaim (b : Nat) (tail : Ref) : Bool :=
  (List.range tryBatchGroup).any fun i => decide (tail = .claim b i)

/-- Register the marker of the target at position `n` as the last holder of its ID. -/
def claimLocked (b n : Nat) (id : Int) : DispatchQueue :=
  let claim := Ref.claim b n
  let q := { q with
    turns := (q.turns.rekey claim [id]).setTail id claim
    jobs := update q.jobs claim { lane := (q.batches b).lane } }
  (q.setPlan b n { claimed := true }).log (.claimed b id)

/-- The loop of `prepareTryBatchGroupLocked` from position `n`, over the targets that are
left for this group. -/
def prepareTargets (q : DispatchQueue) (b : Nat) : Nat → List Int → DispatchQueue
  | n, [] => q.setGroupN b n
  | n, id :: rest =>
      if q.fenced then
        (q.setPlan b n { step := .handBack, handBack := some .fenced }).prepareTargets b (n + 1) rest
      else
        match q.turns.tails id with
        | none => ((q.setPlan b n {}).claimLocked b n id).prepareTargets b (n + 1) rest
        | some tail =>
            if ownsClaim b tail then (q.setPlan b n {}).setGroupN b n
            else
              match q.convertTryBatchTargetLocked b id with
              | .ok q => (q.setPlan b n { step := .converted }).prepareTargets b (n + 1) rest
              | .error reason =>
                  (q.setPlan b n { step := .handBack, handBack := some reason }).prepareTargets
                    b (n + 1) rest

def prepareTryBatchGroupLocked (b : Nat) : DispatchQueue :=
  let batch := q.batches b
  q.prepareTargets b 0 ((batch.items.drop batch.next).take tryBatchGroup)

/-- One claim of the group is withdrawn; who registered behind it may run. -/
def releaseClaimLocked (b : Nat) (q : DispatchQueue) (i : Nat) : DispatchQueue :=
  let plan := (q.batches b).group i
  if plan.claimed then
    let claim := Ref.claim b i
    let ids := q.turns.keys claim
    let q := q.releaseIDsLocked claim
    let q := { q with
      turns := q.turns.clear claim
      history := ids.map (QueueEvent.unclaimed b) ++ q.history }
    q.setPlan b i { plan with claimed := false }
  else q

def releaseTryBatchClaimsLocked (b : Nat) : DispatchQueue :=
  (List.range (q.batches b).groupN).foldl (releaseClaimLocked b) q

/-- A target that could not get its lock becomes a job behind its own claim. -/
def convertBusyLocked (b start : Nat) (q : DispatchQueue) (i : Nat) : DispatchQueue :=
  let plan := (q.batches b).group i
  if plan.busy then
    match (q.batches b).items[start + i]? with
    | some id =>
        match q.convertTryBatchTargetLocked b id with
        | .ok q => q
        | .error reason => q.setPlan b i { plan with handBack := some reason }
    | none => q
  else q

def finishTryBatchGroupLocked (b start : Nat) : DispatchQueue :=
  let q := (List.range (q.batches b).groupN).foldl (convertBusyLocked b start) q
  q.releaseTryBatchClaimsLocked b

/-- What running a claimed target came to. -/
inductive TargetOutcome where
  | done
  | busy
  | handBack
  deriving DecidableEq, Repr

/-- The results of the targets that were run, written into the plans of the group. -/
def executeGroup (batch : TryBatchJob) (outcome : Nat → TargetOutcome) : TryBatchJob :=
  { batch with
    group := fun i =>
      let plan := batch.group i
      if i < batch.groupN ∧ plan.step = .run then
        match outcome i with
        | .done => { plan with busy := false, handBack := none }
        | .busy => { plan with busy := true, handBack := none }
        | .handBack => { plan with busy := false, handBack := some .refused }
      else plan
    next := batch.next + batch.groupN }

/-- The end of a group: settle it, then leave the loop or arrange the next one. `slice`
says that the time slice is used up. -/
def groupDone (b : Nat) (outcome : Nat → TargetOutcome) (slice : Bool) : DispatchQueue :=
  let start := (q.batches b).next
  let q := q.setBatch b (executeGroup (q.batches b) outcome)
  let q := q.finishTryBatchGroupLocked b start
  if (q.batches b).items.length ≤ (q.batches b).next then q.setStage b (.leaving false)
  else if slice then q.setStage b (.leaving true)
  else q.prepareTryBatchGroupLocked b

/-- `recycle`: the object with its claim markers goes back to the pool. -/
def recycle (b : Nat) : DispatchQueue :=
  let turns := (List.range tryBatchGroup).foldl (fun turns i => turns.allocate (.claim b i) []) q.turns
  { q with turns, batches := update q.batches b {} }

def yieldTryBatchLocked (lane : Lane) (j : Ref) : DispatchQueue :=
  let s := q.lanes lane
  (q.setLane lane { s with running := s.running - 1, queued := s.queued + 1 }).enqueueReady lane j

/-- The worker gives the item out of its hands and turns to its next one. -/
def putDown (lane : Lane) (j : Ref) (after : Bool) : DispatchQueue :=
  let s := q.lanes lane
  let s := { s with executing := s.executing.erase j }
  q.setLane lane (if after then { s with acting := s.acting + 1 } else { s with awake := s.awake + 1 })

/-- The last section of `runTryBatchLocked`. -/
def leaveTryBatchLocked (lane : Lane) (b : Nat) (yield : Bool) : DispatchQueue :=
  let q := (q.releaseTryBatchClaimsLocked b).putDown lane (.batch b) false
  if yield then (q.yieldTryBatchLocked lane (.batch b)).setStage b .queued
  else (q.finishJobLocked lane (.batch b)).recycle b

/-- A worker of the lane that holds the mutex and nothing else takes its next item, waits
or returns. -/
def work (lane : Lane) : DispatchQueue :=
  let s := q.lanes lane
  if s.awake = 0 then q
  else
    match s.take lane with
    | some (j, s) =>
        let s := { s with awake := s.awake - 1, executing := j :: s.executing }
        let q := (q.setLane lane s).log (.started (q.serial j))
        match j with
        | .batch b => (q.setStage b .running).prepareTryBatchGroupLocked b
        | _ => q
    | none =>
        if q.stopping ∧ q.pending = 0 then
          q.setLane lane { s with awake := s.awake - 1, exited := s.exited + 1 }
        else q.setLane lane { s with awake := s.awake - 1, parked := s.parked + 1 }

/-- A worker has run an ordinary item. `reroute` is the flag the first run leaves on the
message, `after` whether the message has an action for after the queue. -/
def ran (lane : Lane) (j : Ref) (reroute after : Bool) : DispatchQueue :=
  if lane ≠ .io ∧ (q.jobs j).continuation = false ∧ reroute then
    (q.putDown lane j false).rerouteToIo j
  else (q.putDown lane j after).finishJobLocked lane j

def stop : DispatchQueue := if q.stopping then q else { q with stopping := true }.broadcastAll

/-- Critical sections with the choices of their callers. A batch takes an object that is in
the pool, only a request on an I/O worker continues on a business lane, and an Await plan
is started or cancelled once. -/
inductive Input where
  | start
  | admitMsg (msg : DispatchMsg) (prepareIo : Bool)
  | admitTryBatch (b : Nat) (long : Bool) (items : List Int)
  | continueBusiness (parent : Ref) (msg : DispatchMsg)
  | tryContinueBusiness (msg : DispatchMsg)
  | reserveAwait
  | cancelAwait (plan : Nat)
  | startAwait (plan : Nat)
  | work (lane : Lane)
  | ran (lane : Lane) (j : Ref) (reroute after : Bool)
  | acted (lane : Lane)
  | groupDone (lane : Lane) (b : Nat) (outcome : Nat → TargetOutcome) (slice : Bool)
  | leave (lane : Lane) (b : Nat)
  | fence
  | stop

/-- A refused call leaves the queue as it was. -/
def accepted (result : Except HandBack DispatchQueue) : DispatchQueue :=
  match result with
  | .ok after => after
  | .error _ => q

def isBatch : Ref → Bool
  | .batch _ => true
  | _ => false

def step (long : Int → Bool) (q : DispatchQueue) : Input → DispatchQueue
  | .start => q.start
  | .admitMsg msg prepareIo => q.accepted (q.admitMsg long msg prepareIo)
  | .admitTryBatch b isLong items =>
      if (q.batches b).stage = .pooled
      then q.accepted (q.admitTryBatch b (if isLong then .long else .short) items) else q
  | .continueBusiness parent msg =>
      if parent ∈ (q.lanes .io).executing then q.pushContinuationLocked (businessLane long msg) else q
  | .tryContinueBusiness msg =>
      if !q.started || q.stopping then q else q.pushContinuationLocked (businessLane long msg)
  | .reserveAwait => q.accepted q.reserveAwait
  | .cancelAwait plan => if plan ∈ q.plans then q.cancelAwait plan else q
  | .startAwait plan => if plan ∈ q.plans then q.startAwait plan else q
  | .work lane => q.work lane
  | .ran lane j reroute after =>
      if j ∈ (q.lanes lane).executing ∧ isBatch j = false then q.ran lane j reroute after else q
  | .acted lane =>
      let s := q.lanes lane
      if s.acting = 0 then q else q.setLane lane { s with acting := s.acting - 1, awake := s.awake + 1 }
  | .groupDone lane b outcome slice =>
      if Ref.batch b ∈ (q.lanes lane).executing ∧ (q.batches b).stage = .running
      then q.groupDone b outcome slice else q
  | .leave lane b =>
      if Ref.batch b ∈ (q.lanes lane).executing then
        match (q.batches b).stage with
        | .running => q.leaveTryBatchLocked lane b false
        | .leaving yield => q.leaveTryBatchLocked lane b yield
        | _ => q
      else q
  | .fence => { q with fenced := true }
  | .stop => q.stop

def init (config : Lane → WorkerPoolConfig) : DispatchQueue :=
  { lanes := fun lane => { config := config lane } }

end DispatchQueue
end Roost.Nest
