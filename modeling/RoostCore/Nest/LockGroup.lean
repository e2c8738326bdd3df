import Mathlib.Data.List.Dedup
import Mathlib.Data.List.Sort
import RoostCore.Run

/-! Lock groups of entities. Dispatches, broadcast targets and group transitions run on
any number of workers; every lock operation, every read of an entity's group and the
change of a group is one step. -/
namespace Roost.Nest.LockGroup

inductive TransitionState where
  | join
  | leave
  | move
  deriving DecidableEq, Repr

/-- The message to send once the transition is done, with the reply channel it has taken
over from the message that asked for it. -/
structure Continuation where
  handler : String
  channel : Nat
  deriving DecidableEq, Repr

/-- A transition request, as its message carries it. -/
structure Request where
  entity : Nat
  state : TransitionState
  target : Nat
  attempts : Nat
  continuation : Option Continuation
  deriving DecidableEq, Repr

inductive Place where
  | queued
  | delayed
  | executing (worker : Nat)
  deriving DecidableEq, Repr

/-- What a dispatch read of an entity's group before it took any lock. -/
structure Snapshot where
  entity : Nat
  group : Nat
  epoch : Nat
  state : Option (TransitionState × Nat)
  deriving DecidableEq, Repr

/-- An ordinary dispatch, or one target of a try-batch job. -/
structure Job where
  targets : List Nat
  tryBatch : Bool
  attempts : Nat
  deriving DecidableEq, Repr

/-- Where a worker is. Group 0 is no group. -/
inductive Task where
  | idle
  | capture (job : Job) (todo : List Nat) (snaps : List Snapshot)
  | lockGroup (job : Job) (snaps : List Snapshot) (group : Nat)
  | lockEntities (job : Job) (snaps : List Snapshot) (group : Nat) (todo : List Nat)
  | validate (job : Job) (snaps : List Snapshot) (group : Nat)
  | handling (job : Job) (group : Nat)
  | broadcastLock (entity : Nat)
  | broadcasting (entity : Nat)
  | transition (req : Request)
  | lockGroups (req : Request) (todo : List Nat)
  | lockEntity (req : Request)
  | settle (req : Request)
  | release (next : Option Job)
  deriving DecidableEq

structure Worker where
  groups : List Nat := []
  entities : List Nat := []
  task : Task := .idle
  deriving DecidableEq

structure World where
  group : Nat → Nat
  epoch : Nat → Nat := fun _ => 0
  pending : Nat → Option (TransitionState × Nat) := fun _ => none
  groupLock : Nat → Option Nat := fun _ => none
  entityLock : Nat → Option Nat := fun _ => none
  workers : Nat → Worker := fun _ => {}
  messages : List (Place × Request) := []
  calls : Nat := 0
  handed : List Nat := []
  answered : List Nat := []

/-- The caller that waits for the end of a request, if any. -/
def Request.caller (req : Request) : List Nat := (req.continuation.map Continuation.channel).toList

/-- The callers whose continuation is sent; one without a handler name is dropped. -/
def Request.sends (req : Request) : List Nat :=
  match req.continuation with
  | none => []
  | some continuation => if continuation.handler = "" then [] else [continuation.channel]

def upd {α : Type} (f : Nat → α) (i : Nat) (value : α) : Nat → α := fun j => if j = i then value else f j

@[simp] theorem upd_self (f : Nat → α) (i : Nat) (value : α) : upd f i value i = value := by
  simp [upd]

theorem upd_ne (f : Nat → α) (value : α) (other : j ≠ i) : upd f i value j = f j := by
  simp [upd, other]

/-- The group locks a transition holds, ascending, without repetition and without 0. -/
def transitionLockGroupIDs (current target : Nat) (state : TransitionState) : List Nat :=
  let ids := match state with
    | .join => [target]
    | .leave => [current]
    | .move => [current, target]
  ((ids.filter (· ≠ 0)).insertionSort (· ≤ ·)).dedup

theorem mem_transitionLockGroupIDs : g ∈ transitionLockGroupIDs current target state ↔ g ≠ 0 ∧
      match state with
      | .join => g = target
      | .leave => g = current
      | .move => g = current ∨ g = target := by
  cases state <;> simp [transitionLockGroupIDs, List.mem_insertionSort, and_comm]

/-- The group that the targets share, 0 if none is in a group, `none` for a mix. -/
def resolveDispatchGroupID : Nat → List Snapshot → Option Nat
  | group, [] => some group
  | group, snap :: rest =>
    if snap.group = 0 then resolveDispatchGroupID group rest
    else if group = 0 then resolveDispatchGroupID snap.group rest
    else if group = snap.group then resolveDispatchGroupID group rest
    else none

inductive Validity where
  | unchanged
  | pending
  | changed
  deriving DecidableEq

def World.snapshot (w : World) (e : Nat) : Snapshot := ⟨e, w.group e, w.epoch e, w.pending e⟩

/-- The comparison of the snapshots with the entities, once their locks are held. -/
def validateDispatchGroupSnapshots (w : World) : List Snapshot → Validity
  | [] => .unchanged
  | snap :: rest =>
    if (w.pending snap.entity).isSome then .pending
    else if w.snapshot snap.entity = snap then validateDispatchGroupSnapshots w rest
    else .changed

def entityLockGroupDispatchRetryMax : Nat := 4

def entityGroupTransitionRetryMax : Nat := 400

/-- Answers of the environment: the deadline has passed, a full delayed queue or lane, an
entity that the manager no longer has. -/
structure Choice where
  late : Bool := false
  refused : Bool := false
  unmanaged : Bool := false

inductive Act where
  | become (task : Task)
  | takeGroup (group : Nat) (task : Task)
  | takeEntity (entity : Nat) (task : Task)
  | dropGroup (group : Nat)
  | dropEntity (entity : Nat)
  | retry (req : Request)
  | stale (req : Request)
  | update (req : Request)

/-- The next step of a worker that holds `k`'s locks. -/
def advance (w : World) (k : Worker) : Act :=
  match k.task with
  | .idle => .become .idle
  | .capture job (e :: todo) snaps => .become (.capture job todo (snaps ++ [w.snapshot e]))
  | .capture job [] snaps =>
    match resolveDispatchGroupID 0 snaps with
    | none => .become (.release none)
    | some 0 => .become (.lockEntities job snaps 0 job.targets)
    | some group => .become (.lockGroup job snaps group)
  | .lockGroup job snaps group =>
    if w.groupLock group = none then .takeGroup group (.lockEntities job snaps group job.targets)
    else .become (.release none)
  | .lockEntities job snaps group (e :: todo) =>
    if e ∈ k.entities then .become (.lockEntities job snaps group todo)
    else if w.entityLock e = none then .takeEntity e (.lockEntities job snaps group todo)
    else .become (.release none)
  | .lockEntities job snaps group [] => .become (.validate job snaps group)
  | .validate job snaps group =>
    match validateDispatchGroupSnapshots w snaps with
    | .unchanged => .become (.handling job group)
    | .pending => .become (.release none)
    | .changed =>
      -- a try-batch target is converted to a single dispatch; an ordinary one starts over
      if !job.tryBatch && job.attempts + 1 < entityLockGroupDispatchRetryMax then
        .become (.release (some { job with attempts := job.attempts + 1 }))
      else .become (.release none)
  | .handling _ _ => .become (.release none)
  | .broadcastLock e =>
    if w.entityLock e = none then .takeEntity e (.broadcasting e) else .become (.release none)
  | .broadcasting _ => .become (.release none)
  | .transition req =>
    .become (.lockGroups req (transitionLockGroupIDs (w.group req.entity) req.target req.state))
  | .lockGroups req (g :: todo) =>
    if w.groupLock g = none then .takeGroup g (.lockGroups req todo) else .retry req
  | .lockGroups req [] => .become (.lockEntity req)
  | .lockEntity req => if w.entityLock req.entity = none then .takeEntity req.entity (.settle req) else .retry req
  | .settle req =>
    if w.pending req.entity = some (req.state, req.target) then .update req else .stale req
  | .release next =>
    match k.entities, k.groups with
    | e :: _, _ => .dropEntity e
    | [], g :: _ => .dropGroup g
    | [], [] =>
      match next with
      | none => .become .idle
      | some job => .become (.capture job job.targets [])

namespace World
variable (w : World)

@[simps -fullyApplied group pending messages groupLock entityLock calls handed answered]
def setTask (i : Nat) (task : Task) : World :=
  { w with workers := upd w.workers i { w.workers i with task } }

/-- Answers the caller of a continuation with the error of the transition. -/
def answer (req : Request) : World := { w with answered := w.answered ++ req.caller }

def clear (e : Nat) : World := { w with pending := upd w.pending e none }

/-- `retryGroupTransition`: the request goes to the delayed queue with one more attempt, or
it is given up. A refusal by the delayed queue is only logged. -/
def retryGroupTransition (i : Nat) (req : Request) (c : Choice) : World :=
  let next := { req with attempts := req.attempts + 1 }
  let w := { w with messages := w.messages.erase (Place.executing i, req) }
  if next.attempts ≥ entityGroupTransitionRetryMax ∨ c.late then
    (if w.pending req.entity = some (req.state, req.target) then w.clear req.entity else w).answer req
  else if c.refused then w
  else { w with messages := w.messages ++ [(.delayed, next)] }

/-- `UpdateEntityGroup` of a managed entity. -/
def setGroup (e g : Nat) : World :=
  if w.group e = g then w else { w with group := upd w.group e g, epoch := upd w.epoch e (w.epoch e + 1) }

def Request.destination (req : Request) : Nat :=
  match req.state with
  | .leave => 0
  | .join | .move => req.target

/-- The end of a transition that holds its locks. The continuation goes out as a message of
its own, which answers the caller itself if its admission is refused. -/
def update (i : Nat) (req : Request) (c : Choice) : World :=
  let w := { w with messages := w.messages.erase (Place.executing i, req) }
  if c.unmanaged then (w.clear req.entity).answer req
  else
    let w := (w.setGroup req.entity (Request.destination req)).clear req.entity
    if c.refused then { w with answered := w.answered ++ req.sends }
    else { w with handed := w.handed ++ req.sends }

def apply (i : Nat) (c : Choice) : Act → World
  | .become task => w.setTask i task
  | .takeGroup g task =>
    { w with
      groupLock := upd w.groupLock g (some i)
      workers := upd w.workers i { w.workers i with groups := g :: (w.workers i).groups, task } }
  | .takeEntity e task =>
    { w with
      entityLock := upd w.entityLock e (some i)
      workers := upd w.workers i { w.workers i with entities := e :: (w.workers i).entities, task } }
  | .dropGroup g =>
    { w with
      groupLock := upd w.groupLock g none
      workers := upd w.workers i { w.workers i with groups := (w.workers i).groups.erase g } }
  | .dropEntity e =>
    { w with
      entityLock := upd w.entityLock e none
      workers := upd w.workers i { w.workers i with entities := (w.workers i).entities.erase e } }
  | .retry req => (w.retryGroupTransition i req c).setTask i (.release none)
  | .stale req =>
    ({ w with messages := w.messages.erase (Place.executing i, req) }.answer req).setTask i (.release none)
  | .update req => (w.update i req c).setTask i (.release none)

/-- `requestEntityLockGroupTransition`: the mark is set, the continuation takes the reply
channel of the current message over, and the message is sent. A refusal is only logged. -/
def requestTransition (e : Nat) (state : TransitionState) (target : Nat) (handler : Option String)
    (bound refused : Bool) : World :=
  if (w.pending e).isSome then w
  else if handler.isSome && !bound then w
  else
    let req : Request := ⟨e, state, target, 0, handler.map fun name => ⟨name, w.calls⟩⟩
    { w with
      pending := upd w.pending e (some (state, target))
      calls := if handler.isSome then w.calls + 1 else w.calls
      messages := if refused then w.messages else w.messages ++ [(.queued, req)] }

end World

inductive Input where
  | request (entity : Nat) (state : TransitionState) (target : Nat) (handler : Option String)
      (bound refused : Bool)
  | due (index : Nat) (refused : Bool)
  | take (worker index : Nat)
  | dispatch (worker : Nat) (targets : List Nat) (tryBatch : Bool)
  | broadcast (worker entity : Nat)
  | advance (worker : Nat) (choice : Choice)
  | reply (channel : Nat)

def World.start (w : World) (i : Nat) (task : Task) : World :=
  if (w.workers i).task = .idle then w.setTask i task else w

def World.step (w : World) : Input → World
  | .request e state target handler bound refused =>
    -- joining and moving need a group to go to
    if target = 0 ∧ state ≠ .leave then w else
      w.requestTransition e state (if state = .leave then 0 else target) handler bound refused
  | .due index refused =>
    match w.messages[index]? with
    | some (.delayed, req) =>
      { w with messages := w.messages.erase (.delayed, req) ++ if refused then [] else [(.queued, req)] }
    | _ => w
  | .take i index =>
    match w.messages[index]? with
    | some (.queued, req) =>
      if (w.workers i).task = .idle then
        { w with messages := w.messages.erase (.queued, req) ++ [(Place.executing i, req)] }.setTask i (.transition req)
      else w
    | _ => w
  | .dispatch i targets tryBatch =>
    if targets.any fun e => (w.pending e).isSome then w
    else w.start i (.capture ⟨targets, tryBatch, 0⟩ targets [])
  | .broadcast i e => w.start i (.broadcastLock e)
  | .advance i c => w.apply i c (LockGroup.advance w (w.workers i))
  | .reply channel =>
    if channel ∈ w.handed then
      { w with handed := w.handed.erase channel, answered := w.answered ++ [channel] }
    else w

end Roost.Nest.LockGroup
