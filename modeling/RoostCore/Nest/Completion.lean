import RoostCore.Chains
import RoostCore.Run

/-! The completion of pipelined transactions. Transactions take the locks of the entities
they declare, enter the completion chains under these locks and complete after the locks are
free: on the dispatch worker, on the completion pump or in its pool. Every goroutine moves on
its own; one input is one of its steps. -/
namespace Roost.Nest
open Function

/-- The ways through `runTransaction`: the ordinary commit under the locks, the same for a
message with a Remote batch, whose callbacks wait for the confirmation of the batch, the
pipelined commit whose worker waits for the ticket, and the pipelined commit that hands its
completion over to the pump. -/
inductive CommitRoute
  | ordinary
  | remote
  | phaseOne
  | async
deriving DecidableEq, Repr

/-- The negation of `takesPipelinedCompletion`. -/
def CommitRoute.Ordinary : CommitRoute → Prop
  | .ordinary | .remote => True
  | .phaseOne | .async => False

instance : DecidablePred CommitRoute.Ordinary
  | .ordinary | .remote => inferInstanceAs (Decidable True)
  | .phaseOne | .async => inferInstanceAs (Decidable False)

@[simp] theorem CommitRoute.async_not_ordinary : ¬CommitRoute.Ordinary .async := id

/-- A transaction of the schedule with the entities it declares, the first one apart. -/
structure Txn where
  route : CommitRoute
  first : Int
  rest : List Int

def Txn.es (txn : Txn) : List Int := txn.first :: txn.rest

/-- How the handler and the admission of its record end: an error, nothing to persist, or
a record that the WAL has accepted. -/
inductive Handled
  | rejected
  | empty
  | recorded
deriving DecidableEq, Repr

/-- What a transaction does next. `ordering` has the entities that are still to be looked
at, `waiting` the orders still to be awaited, `closing` those still to be released; in
`unchaining` the first of them is closed and its chain entry not yet removed. -/
inductive TxnStage
  | locking
  | ordering (es : List Int)
  | handling
  | enqueued
  | counted
  | linked
  | releasing
  | durable
  | waiting (orders : List Int)
  | callbacks
  | replying
  | closing (orders : List Int)
  | unchaining (orders : List Int)
  | uncounting (orders : List Int)
  | ended
deriving DecidableEq, Repr

/-- `orders` are the entities on whose chains the transaction has a node, `committed` says
that its AfterCommit callbacks are due, `failed` that one of them has panicked or that the
Remote batch was not confirmed. -/
structure Progress where
  stage : TxnStage := .locking
  committed : Bool := false
  failed : Bool := false
  ticket : Option Nat := none
  orders : List Int := []
  deferred : Bool := false
deriving DecidableEq, Repr

/-- What happened, for the statements only: no step reads it. -/
inductive CompletionEvent
  | locked (t : Nat) (e : Int)
  | unlocked (t : Nat) (e : Int)
  | counted (t : Nat)
  | uncounted (t : Nat)
  | linked (t : Nat) (e : Int)
  | settled (t : Nat)
  | afterCommit (t : Nat)
  | replied (t : Nat) (ok : Bool)
  | released (t : Nat) (e : Int)
deriving DecidableEq, Repr

/-- The goroutine of `completionPump.run`: it takes the next entry, waits for its ticket,
and runs the completion itself when the pool rejects it. -/
inductive PumpStage
  | idle
  | waiting (t : Nat)
  | running (t : Nat)
deriving DecidableEq, Repr

/-- `worker` is the hash of the pool. -/
structure CompletionConfig where
  txns : Nat → Txn
  queueCap : Nat
  worker : Int → Nat

/-- The dispatch queue has started the `jobs`; `batches` are the transactions whose callbacks
are with a Remote batch that has no outcome yet. The LSNs below `durableLSN` are durable; after
a failure of the WAL no other becomes so. The first task of a worker of the pool is the one it
executes. -/
structure Pipeline where
  jobs : List Nat
  batches : List Nat
  owner : Int → Option Nat
  progress : Nat → Progress
  chains : Chains Nat Int
  asyncPending : Nat → Int
  queue : List Nat
  closed : Bool
  pump : PumpStage
  pool : Nat → List Nat
  nextLSN : Nat
  durableLSN : Nat
  walFailed : Bool
  history : List CompletionEvent

namespace Pipeline

def init : Pipeline where
  jobs := []
  batches := []
  owner := fun _ => none
  progress := fun _ => {}
  chains := .empty
  asyncPending := fun _ => 0
  queue := []
  closed := false
  pump := .idle
  pool := fun _ => []
  nextLSN := 0
  durableLSN := 0
  walFailed := false
  history := []

/-- The shard of an entity: the multiplicative hash of the 64 bits, its eight high bits. -/
def pendingShard (entityID : Int) : Nat :=
  (entityID % 2 ^ 64).toNat * 0x9E3779B97F4A7C15 % 2 ^ 64 / 2 ^ 56

def put (w : Pipeline) (t : Nat) (p : Progress) : Pipeline :=
  { w with progress := update w.progress t p }

def log (w : Pipeline) (event : CompletionEvent) : Pipeline :=
  { w with history := event :: w.history }

def goto (w : Pipeline) (t : Nat) (stage : TxnStage) : Pipeline :=
  w.put t { w.progress t with stage }

def asyncCompletionPending (w : Pipeline) (entityID : Int) : Bool :=
  w.asyncPending (pendingShard entityID) != 0

def link (w : Pipeline) (t : Nat) (entityID : Int) : Pipeline :=
  ({ w with chains := w.chains.link t entityID }.put t
    { w.progress t with orders := (w.progress t).orders ++ [entityID] }).log (.linked t entityID)

/-- The transaction has done everything that needs its locks. -/
def settle (w : Pipeline) (t : Nat) : Pipeline := (w.goto t .releasing).log (.settled t)

/-- What the ticket of an LSN shows: it is durable, has failed, or is not done. -/
def ticketDone (w : Pipeline) (lsn : Nat) : Option Bool :=
  if lsn < w.durableLSN then some true else if w.walFailed then some false else none

/-- The job of the transaction has ended for the dispatch queue: its worker is done, which a
deferred completion does not keep back. -/
def Returned (w : Pipeline) (t : Nat) : Prop :=
  match (w.progress t).stage with
  | .ended => True
  | .waiting _ | .callbacks | .replying | .closing _ | .unchaining _ | .uncounting _ =>
      (w.progress t).deferred = true
  | _ => False

instance (w : Pipeline) (t : Nat) : Decidable (w.Returned t) := by
  unfold Returned
  split <;> infer_instance

variable (cfg : CompletionConfig)

/-- The dispatch queue starts a job when every job before it that declares one of its
entities has ended. -/
def dispatch (w : Pipeline) (t : Nat) : Pipeline :=
  if t ∉ w.jobs ∧ ∀ u ∈ w.jobs, (∃ e ∈ (cfg.txns t).es, e ∈ (cfg.txns u).es) → w.Returned u then
    { w with jobs := t :: w.jobs }
  else w

def lock (w : Pipeline) (t : Nat) (e : Int) : Pipeline :=
  if t ∈ w.jobs ∧ (w.progress t).stage = .locking ∧ e ∈ (cfg.txns t).es ∧ w.owner e = none then
    { w with owner := update w.owner e (some t) }.log (.locked t e)
  else w

/-- All locks are held: `runTransaction` begins. -/
def start (w : Pipeline) (t : Nat) : Pipeline :=
  if (w.progress t).stage = .locking ∧ ∀ e ∈ (cfg.txns t).es, w.owner e = some t then
    w.goto t (if (cfg.txns t).route.Ordinary then .ordering (cfg.txns t).es else .handling)
  else w

/-- One entity of the loop of `orderBehindAsyncCompletions`. -/
def orderBehindAsyncCompletions (w : Pipeline) (t : Nat) : Pipeline :=
  match (w.progress t).stage with
  | .ordering (e :: rest) =>
      if w.asyncCompletionPending e = false ∨ e ∈ (w.progress t).orders then w.goto t (.ordering rest)
      else (w.link t e).goto t (.ordering rest)
  | .ordering [] => w.goto t .handling
  | _ => w

/-- The handler, and the admission of what it wrote. A commit under the locks waits there
for its own record; a pipelined one only takes its ticket. -/
def handle (w : Pipeline) (t : Nat) (result : Handled) : Pipeline :=
  if (w.progress t).stage = .handling then
    if (cfg.txns t).route.Ordinary then
      (w.put t { w.progress t with committed := result != .rejected }).settle t
    else
      match result with
      | .rejected => w.settle t
      | .empty => (w.put t { w.progress t with committed := true }).settle t
      | .recorded =>
          { w with nextLSN := w.nextLSN + 1 }.put t
            { w.progress t with committed := true, ticket := some w.nextLSN, stage := .enqueued }
  else w

/-- The pipelined transaction takes its place on the chain of its first entity: `link` in
`commitPipelined`, or the counter and then `link` in `linkAsync`. -/
def linkCompletion (w : Pipeline) (t : Nat) : Pipeline :=
  match (w.progress t).stage with
  | .enqueued =>
      if (cfg.txns t).route = .async then
        ({ w with
            asyncPending := update w.asyncPending (pendingShard (cfg.txns t).first)
              (w.asyncPending (pendingShard (cfg.txns t).first) + 1) }.goto t .counted).log (.counted t)
      else (w.link t (cfg.txns t).first).settle t
  | .counted => (w.link t (cfg.txns t).first).goto t .linked
  | _ => w

/-- The pump takes the completion over unless it is stopped or its queue is full. -/
def submit (w : Pipeline) (t : Nat) : Pipeline :=
  if (w.progress t).stage = .linked then
    if w.closed = false ∧ w.queue.length < cfg.queueCap then
      ({ w with queue := w.queue ++ [t] }.put t { w.progress t with deferred := true }).settle t
    else w.settle t
  else w

def unlock (w : Pipeline) (t : Nat) (e : Int) : Pipeline :=
  if (w.progress t).stage = .releasing ∧ w.owner e = some t then
    { w with owner := update w.owner e none }.log (.unlocked t e)
  else w

/-- All locks are free: the barrier `unlocked` is closed, the callbacks of the guard begin. -/
def unlocked (w : Pipeline) (t : Nat) : Pipeline :=
  if (w.progress t).stage = .releasing ∧ ∀ e ∈ (cfg.txns t).es, w.owner e ≠ some t then
    w.goto t (if (w.progress t).ticket.isSome ∧ (w.progress t).deferred = false then .durable
      else .waiting (w.progress t).orders)
  else w

/-- The dispatch worker waits for the ticket. When it has failed, phase one returns at once
and only its deferred release is left; a degraded completion still waits for its turn. -/
def waitTicket (w : Pipeline) (t : Nat) : Pipeline :=
  if (w.progress t).stage = .durable then
    match (w.progress t).ticket.bind w.ticketDone with
    | none => w
    | some true => w.goto t (.waiting (w.progress t).orders)
    | some false =>
        w.put t { w.progress t with
          committed := false
          stage := if (cfg.txns t).route = .async then .waiting (w.progress t).orders
            else .closing (w.progress t).orders }
  else w

/-- A goroutine executes the completion: the dispatch worker, or the pump or the worker of
the pool that has come to it. -/
def Running (w : Pipeline) (t : Nat) : Prop :=
  (w.progress t).deferred = false ∨ w.pump = .running t ∨
    (w.pool (cfg.worker (cfg.txns t).first)).head? = some t
  deriving Decidable

def await (w : Pipeline) (t : Nat) : Pipeline :=
  match (w.progress t).stage with
  | .waiting (e :: rest) =>
      if w.Running cfg t ∧ w.chains.Awaited t e then w.goto t (.waiting rest) else w
  | .waiting [] =>
      if w.Running cfg t then
        w.goto t (if (cfg.txns t).route = .remote then .closing (w.progress t).orders else .callbacks)
      else w
  | _ => w

/-- Where the callbacks lead. The asynchronous completion replies before its deferred release,
phase one and the guard release before they return to the reply; a message with a Remote
batch has released already when the batch is confirmed. -/
def afterCallbacks (w : Pipeline) (t : Nat) : TxnStage :=
  match (cfg.txns t).route with
  | .async | .remote => .replying
  | .ordinary | .phaseOne => .closing (w.progress t).orders

/-- The AfterCommit callbacks, each behind its own recover. -/
def afterCommit (w : Pipeline) (t : Nat) (failed : Bool) : Pipeline :=
  if (w.progress t).stage = .callbacks then
    let next := w.put t { w.progress t with failed, stage := w.afterCallbacks cfg t }
    if (w.progress t).committed then next.log (.afterCommit t) else next
  else w

/-- The confirmation of the Remote batch fails or its outcome is unknown: the callbacks stay
with the batch and the reply is an error. -/
def deferPostRemoteCommit (w : Pipeline) (t : Nat) : Pipeline :=
  if (w.progress t).stage = .callbacks ∧ (cfg.txns t).route = .remote ∧ (w.progress t).committed = true then
    { w with batches := t :: w.batches }.put t { w.progress t with failed := true, stage := .replying }
  else w

/-- The batch has its outcome at last and runs the callbacks. -/
def conclude (w : Pipeline) (t : Nat) : Pipeline :=
  if t ∈ w.batches then { w with batches := w.batches.filter (· ≠ t) }.log (.afterCommit t) else w

/-- A failed callback turns the reply of a pipelined transaction and of one with a Remote
batch into an error; the guard of an ordinary one only logs it. -/
def reply (w : Pipeline) (t : Nat) : Pipeline :=
  if (w.progress t).stage = .replying then
    (w.goto t (if (cfg.txns t).route = .async then .closing (w.progress t).orders else .ended)).log
      (.replied t ((w.progress t).committed &&
        ((cfg.txns t).route = .ordinary || !(w.progress t).failed)))
  else w

/-- One step of `completionOrder.release`, for each order in turn: close the node, remove
the chain entry if it is still the tail, and last take the node out of the counter. -/
def release (w : Pipeline) (t : Nat) : Pipeline :=
  match (w.progress t).stage with
  | .closing (e :: rest) =>
      ({ w with chains := w.chains.close t e }.goto t (.unchaining (e :: rest))).log (.released t e)
  | .unchaining (e :: rest) =>
      { w.goto t (if (cfg.txns t).route = .async then .uncounting rest else .closing rest) with
        chains := w.chains.drop t e }
  | .uncounting rest =>
      ({ w with
          asyncPending := update w.asyncPending (pendingShard (cfg.txns t).first)
            (w.asyncPending (pendingShard (cfg.txns t).first) - 1) }.goto t (.closing rest)).log
        (.uncounted t)
  | .closing [] =>
      w.goto t (match (cfg.txns t).route with
        | .async => .ended
        | .remote => .callbacks
        | .ordinary | .phaseOne => .replying)
  | _ => w

def pumpTake (w : Pipeline) : Pipeline :=
  match w.pump, w.queue with
  | .idle, t :: rest => { w with pump := .waiting t, queue := rest }
  | _, _ => w

/-- The ticket of the entry is done: the completion goes to the pool, or runs here when the
pool rejects it. -/
def pumpForward (w : Pipeline) (rejected : Bool) : Pipeline :=
  match w.pump with
  | .waiting t =>
      match (w.progress t).ticket.bind w.ticketDone with
      | none => w
      | some ok =>
          let told := w.put t { w.progress t with committed := (w.progress t).committed && ok }
          if rejected then { told with pump := .running t }
          else
            { told with
              pump := .idle
              pool := update w.pool (cfg.worker (cfg.txns t).first)
                (w.pool (cfg.worker (cfg.txns t).first) ++ [t]) }
  | _ => w

def pumpNext (w : Pipeline) : Pipeline :=
  match w.pump with
  | .running t => if (w.progress t).stage = .ended then { w with pump := .idle } else w
  | _ => w

def workerNext (w : Pipeline) (worker : Nat) : Pipeline :=
  match w.pool worker with
  | t :: rest =>
      if (w.progress t).stage = .ended then { w with pool := update w.pool worker rest } else w
  | [] => w

/-- Tickets become durable in the order of their LSNs. -/
def sync (w : Pipeline) (lsn : Nat) : Pipeline :=
  if w.walFailed = false ∧ w.durableLSN ≤ lsn ∧ lsn ≤ w.nextLSN then { w with durableLSN := lsn } else w

inductive Input
  | dispatch (t : Nat)
  | lock (t : Nat) (e : Int)
  | start (t : Nat)
  | order (t : Nat)
  | handle (t : Nat) (result : Handled)
  | link (t : Nat)
  | submit (t : Nat)
  | unlock (t : Nat) (e : Int)
  | unlocked (t : Nat)
  | ticket (t : Nat)
  | await (t : Nat)
  | afterCommit (t : Nat) (failed : Bool)
  | postpone (t : Nat)
  | conclude (t : Nat)
  | reply (t : Nat)
  | release (t : Nat)
  | pumpTake
  | pumpForward (rejected : Bool)
  | pumpNext
  | workerNext (worker : Nat)
  | sync (lsn : Nat)
  | walFail
  | stop
deriving DecidableEq, Repr

def step (w : Pipeline) : Input → Pipeline
  | .dispatch t => w.dispatch cfg t
  | .lock t e => w.lock cfg t e
  | .start t => w.start cfg t
  | .order t => w.orderBehindAsyncCompletions t
  | .handle t result => w.handle cfg t result
  | .link t => w.linkCompletion cfg t
  | .submit t => w.submit cfg t
  | .unlock t e => w.unlock t e
  | .unlocked t => w.unlocked cfg t
  | .ticket t => w.waitTicket cfg t
  | .await t => w.await cfg t
  | .afterCommit t failed => w.afterCommit cfg t failed
  | .postpone t => w.deferPostRemoteCommit cfg t
  | .conclude t => w.conclude t
  | .reply t => w.reply cfg t
  | .release t => w.release cfg t
  | .pumpTake => w.pumpTake
  | .pumpForward rejected => w.pumpForward cfg rejected
  | .pumpNext => w.pumpNext
  | .workerNext worker => w.workerNext worker
  | .sync lsn => w.sync lsn
  | .walFail => { w with walFailed := true }
  | .stop => { w with closed := true }

end Pipeline

end Roost.Nest
