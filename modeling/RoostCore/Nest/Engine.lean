import RoostCore.Nest.Dispatch
import RoostCore.Run

/-! The engine as a machine of independent activities. A request is admitted, dispatched,
requeued, suspended by an Await, completed asynchronously or flushed by a stop; each of
these is one step of one activity, and any activity may take the next step. The lanes and
their order are left out: every queued message may be dispatched at any time. -/
namespace Roost.Nest
variable {V : Type}

inductive Reply (V : Type) where
  | value (ret : Option V)
  | error (err : Err)
  deriving DecidableEq, Repr

def Reply.of (ret : Option V) : Option Err → Reply V
  | none => .value ret
  | some err => .error err

inductive Stage (V : Type) where
  | queued (m : Msg V) (ioStage : Bool)
  | closing (m : Msg V) (ret : Option V) (err : Option Err)
  | replying (m : Msg V) (ret : Option V) (err : Option Err)
  | delayed (m : Msg V)
  | sending (m : Msg V)
  | flushing (m : Msg V)
  | awaiting (plan : AwaitPlan)
  | working (plan : AwaitPlan)
  | completing (handoff : Handoff V)

structure Activity (V : Type) where
  request : Nat
  stage : Stage V

/-- What a request did: handler code that ran, an Await whose segment succeeded, and what
the work of an Await produced. -/
inductive Event (V : Type) where
  | ran (request : Nat) (code : Ran V)
  | awaited (request : Nat) (await : Nat)
  | worked (request : Nat) (result : Resume V)
  deriving DecidableEq

structure Engine (V : Type) where
  fenced : Bool := false
  stopped : Bool := false
  requests : Nat := 0
  awaits : Nat := 0
  admitted : List Nat := []
  live : List (Activity V) := []
  replies : List (Nat × Reply V) := []
  log : List (Event V) := []

/-- The answer of the dispatch queue to an admission: refused, or accepted with the target
found cold or not. -/
structure Admission where
  refused : Option Err
  cold : Bool

/-- `TrySendMsg`. -/
def trySendMsg (cfg : Config) (e : Engine V) (m : Msg V) (answer : Admission) :
    Except Err (Stage V) :=
  if e.fenced then .error [.nestFenced]
  else if e.stopped then .error [.nestStopped]
  else match answer.refused with
    | some err => .error err
    | none => .ok (.queued m (cfg.remoteHandler && (m.cost || m.hasRemote || answer.cold)))

/-- How the delayed queue takes a message; a delay above `MaxDelay` is too long. -/
inductive DelayAnswer where
  | accepted | tooLong | full
  deriving DecidableEq

/-- `TryDelaySendMsg` with the delay of a requeue, which is positive. -/
def tryDelaySendMsg (e : Engine V) (m : Msg V) (answer : DelayAnswer) : Except Err (Stage V) :=
  if answer = .tooLong then .error [.delayTooLong]
  else if e.fenced then .error [.nestFenced]
  else if e.stopped then .error [.nestStopped]
  else if answer = .full then .error [.queueFull]
  else .ok (.delayed m)

/-- What an activity turns into, with the values it sends. -/
structure Effect (V : Type) where
  stages : List (Stage V)
  replies : List (Nat × Reply V) := []
  fences : Bool := false

def send (channel : Option Nat) (reply : Reply V) : List (Nat × Reply V) :=
  match channel with
  | none => []
  | some channel => [(channel, reply)]

/-- `sendMsg` and `delaySendMsg`: a refusal is answered on the channel of the message. -/
def sent (m : Msg V) : Except Err (Stage V) → Effect V
  | .ok stage => { stages := [stage] }
  | .error err => { stages := [], replies := send m.retChan (.error err) }

/-- What the work of an Await gave, and the answers of the plan after it. `targets` is what
`WithResumeTargets` returned and `normalized` what became of the IDs. -/
structure WorkRun (V : Type) where
  canceledBefore : Option Err
  value : V
  workErr : Option Err
  canceledAfter : Option Err
  targets : Except Err (List Int)
  normalized : Except Err (List Int)
  hasRemote : Bool
  admission : Admission

/-- The end of a plan: the request is answered, or its resumed segment is to be sent. -/
inductive PlanEnd (V : Type) where
  | finish (err : Option Err)
  | resume (next : Msg V)

/-- The targets of the resumed segment; chosen ones need the value of the work. -/
def resumeTargets (plan : AwaitPlan) (w : WorkRun V) : Except Err (List Int) :=
  if plan.chooses then
    match w.workErr with
    | some err => .error err
    | none => w.targets
  else .ok plan.ids

def runPlan (plan : AwaitPlan) (w : WorkRun V) : PlanEnd V :=
  match w.canceledBefore.or w.canceledAfter with
  | some err => .finish (some err)
  | none =>
    match resumeTargets plan w with
    | .error err => .finish (some err)
    | .ok targets =>
      if targets.length ≠ plan.count then .finish (some [.awaitSignature])
      else match w.normalized with
        | .error err => .finish (some err)
        | .ok full =>
          if w.hasRemote then .finish (some [.awaitContext])
          else .resume
            { name := plan.name
              targets := .multi full
              params := []
              retChan := plan.reply
              cost := true
              resumeEntry := some ⟨plan.await, w.value, w.workErr⟩ }

/-- The completion of a deferred transaction, given the outcome of its ticket and of its
callbacks. -/
def complete (handoff : Handoff V) (ticketErr commitErr : Option Err) : Reply V :=
  match ticketErr with
  | some err => .error (err ++ (handoff.releaseErr.getD []))
  | none =>
    match errorsJoin commitErr handoff.releaseErr with
    | some err => .error (if err.contains .afterCommitFailed then err else wrapped .afterCommitFailed err)
    | none => .value handoff.ret

/-- The choices a scheduler and the environment make for one step of an activity. -/
inductive Choice (V : Type) where
  | dispatch (attempt : Attempt V)
  | close (answer : DelayAnswer)
  | reply
  | due
  | send (answer : Admission)
  | flush
  | start
  | work (run : WorkRun V)
  | complete (ticketErr commitErr : Option Err)

/-- `handOverAwaitPlan` and `replyDispatch`. -/
def replyDispatch (m : Msg V) (ret : Option V) (err : Option Err) : Effect V :=
  let reply := if m.deferredCompletion then [] else send m.retChan (.of ret err)
  match m.awaitPlan, err with
  | some plan, none => { stages := [.awaiting plan] }
  | _, _ => { stages := [], replies := reply }

/-- One step of an activity; `none` where the choice does not fit the stage. -/
def Stage.act (cfg : Config) (e : Engine V) (stage : Stage V) (choice : Choice V) : Option (Effect V) :=
  match stage, choice with
  | .queued m ioStage, .dispatch a =>
    let out := dispatchNest cfg e.fenced e.awaits ioStage m a
    let tx := out.logic.tx
    some <| if out.rerouted then { stages := [.queued tx.msg true] } else
      { stages := .closing tx.msg tx.ret tx.err :: (tx.handoff.map Stage.completing).toList
        fences := errorsIs tx.err .commitIndeterminate }
  | .closing m ret err, .close answer =>
    let verdict := requeueOrAnnotateNotRequeued m err
    let requeued : Effect V := match verdict.requeued with
      | none => { stages := [] }
      | some next => sent next (tryDelaySendMsg e next answer)
    some { requeued with stages := .replying verdict.msg ret verdict.err :: requeued.stages }
  | .replying m ret err, .reply => some (replyDispatch m ret err)
  | .delayed m, .due => if e.stopped then none else some { stages := [.sending m] }
  | .sending m, .send answer => some (sent m (trySendMsg cfg e m answer))
  | .flushing m, .flush => some { stages := [], replies := send m.retChan (.error [.nestStopped]) }
  | .awaiting plan, .start => some { stages := [.working plan] }
  | .working plan, .work w =>
    some <| match runPlan plan w with
      | .finish err => { stages := [], replies := send plan.reply (.of none err) }
      | .resume next => sent next (trySendMsg cfg e next w.admission)
  | .completing handoff, .complete ticketErr commitErr =>
    some { stages := [], replies := send handoff.retChan (complete handoff ticketErr commitErr),
           fences := ticketErr.isSome }
  | _, _ => none

/-- What a step of an activity adds to the log of its request. -/
def Stage.events (cfg : Config) (e : Engine V) (request : Nat) (stage : Stage V) (choice : Choice V) :
    List (Event V) :=
  match stage, choice with
  | .queued m ioStage, .dispatch a =>
    (dispatchNest cfg e.fenced e.awaits ioStage m a).logic.ran.map (Event.ran request)
  | .replying m _ none, .reply => (m.awaitPlan.map fun plan => Event.awaited request plan.await).toList
  | .working plan, .work w =>
    if w.canceledBefore.isSome then [] else [.worked request ⟨plan.await, w.value, w.workErr⟩]
  | _, _ => []

/-- The stop takes every delayed message for its flush. -/
def Stage.stop : Stage V → Stage V
  | .delayed m => .flushing m
  | stage => stage

inductive Input (V : Type) where
  | request (m : Msg V) (sync : Bool) (answer : Admission)
  | act (index : Nat) (choice : Choice V)
  | fence
  | stop

/-- A request as the client sends it: the channel is made for this call alone, and none of
the facts of a dispatch are set. -/
def newRequest (e : Engine V) (m : Msg V) (sync : Bool) : Msg V where
  name := m.name
  targets := m.targets
  params := m.params
  retChan := if sync then some e.requests else none
  cost := m.cost
  hasRemote := m.hasRemote

def Engine.step (cfg : Config) (e : Engine V) : Input V → Engine V
  | .request m sync answer =>
    match trySendMsg cfg e (newRequest e m sync) answer with
    | .error _ => { e with requests := e.requests + 1 }
    | .ok stage => { e with
        requests := e.requests + 1
        admitted := if sync then e.requests :: e.admitted else e.admitted
        live := e.live ++ [⟨e.requests, stage⟩] }
  | .act index choice =>
    match e.live[index]? with
    | none => e
    | some activity =>
      match activity.stage.act cfg e choice with
      | none => e
      | some effect => { e with
          fenced := e.fenced || effect.fences
          awaits := e.awaits + 1
          live := e.live.eraseIdx index ++ effect.stages.map (Activity.mk activity.request)
          replies := e.replies ++ effect.replies
          log := e.log ++ activity.stage.events cfg e activity.request choice }
  | .fence => { e with fenced := true }
  | .stop => { e with
      stopped := true
      live := e.live.map fun activity => { activity with stage := activity.stage.stop } }

end Roost.Nest
