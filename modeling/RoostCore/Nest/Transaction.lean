import RoostCore.Nest.Message

/-! The transaction of one dispatched message: the handler call with the Awaits it
registers, the commit that follows, and the reply that an asynchronous completion takes
over. Answers of the environment (locks, committer, remote batch, business code) are
arguments, so every behaviour of theirs is covered. -/
namespace Roost.Nest
variable {V : Type}

inductive RollbackPolicy where
  | none
  | state
  | undo
  deriving DecidableEq, Repr

inductive Durability where
  | memory
  | async
  | strict
  | pipelined
  deriving DecidableEq, Repr

/-- A declaration as the registry keeps it: only a memory handler may do without rollback. -/
structure HandlerMeta where
  rollback : RollbackPolicy
  durability : Durability
  valid : rollback = .none → durability = .memory
  deriving DecidableEq

def HandlerMeta.memory : HandlerMeta := ⟨.none, .memory, fun _ => rfl⟩

structure HandlerEntry where
  «meta» : HandlerMeta
  asyncCompletion : Bool
  deriving DecidableEq

/-- Handler code that a dispatch has run: a registered handler, or the callback of an Await. -/
inductive Ran (V : Type) where
  | handler (name : String) (params : List V)
  | callback (resume : Resume V)
  deriving DecidableEq, Repr

/-- One call of Await by a handler. `reserve` is the answer of `reserveAwait`. -/
structure AwaitCall where
  count : Nat
  wellTyped : Bool
  chooses : Bool
  reserve : Option Err

/-- `Await`, called with the identity `await` and with or without an open rollback
transaction. -/
def registerAwait (await : Nat) (inTransaction : Bool) (m : Msg V) (call : AwaitCall) :
    Except Err (Msg V) :=
  if inTransaction || !m.txNoRollback || m.remoteWriteBatch then .error [.awaitContext]
  else if m.awaitPlan.isSome then .error [.awaitPending]
  else if !call.wellTyped || (!call.chooses && call.count != m.targets.ids.length) then
    .error [.awaitSignature]
  else match call.reserve with
    | some err => .error err
    | none => .ok { m with
        awaitPlan := some ⟨await, m.retChan, m.name, m.targets.ids, call.count, call.chooses⟩ }

/-- What the handler code did. A panic ends it like an error, and the handler may drop the
error that a refused Await returns. -/
structure HandlerRun (V : Type) where
  awaits : List AwaitCall
  createBusy : Bool
  nestedCommitted : Bool
  captureFailed : Option Err
  result : Except Err (Option V)

def registerAwaits (await : Nat) (inTransaction : Bool) : Msg V → List AwaitCall → Msg V
  | m, [] => m
  | m, call :: rest =>
    match registerAwait await inTransaction m call with
    | .error _ => registerAwaits await inTransaction m rest
    | .ok registered => registerAwaits await inTransaction registered rest

/-- The message after the handler code has run on it. -/
def afterHandler (await : Nat) (inTransaction rollbackable : Bool) (m : Msg V)
    (run : HandlerRun V) : Msg V :=
  let m := registerAwaits await inTransaction m run.awaits
  { m with
    createLockConflictNoRollback :=
      m.createLockConflictNoRollback || (run.createBusy && !rollbackable)
    nestedTxCommitted := m.nestedTxCommitted || run.nestedCommitted }

/-- Answers of the commit path of one transaction. -/
structure CommitRun where
  capture : Option Err
  rollback : Option Err
  finalize : Option Err
  abort : Option Err
  publisher : Option Err
  durable : Option Err
  indeterminate : Option Err
  ticket : Bool
  enqueue : Option Err
  release : Option Err
  ticketErr : Option Err
  afterCommit : Option Err

/-- The reply of an asynchronous completion: sent once the ticket has its outcome, by the
completion pool or, with a full queue, by the dispatch worker. -/
structure Handoff (V : Type) where
  retChan : Option Nat
  ret : Option V
  releaseErr : Option Err
  deriving DecidableEq, Repr

structure TxEnd (V : Type) where
  msg : Msg V
  ret : Option V := none
  err : Option Err := none
  handoff : Option (Handoff V) := none

/-- `rejectCommit`: a refusal before anything durable was written. -/
def rejectCommit (answers : CommitRun) (cause : Err) : Err :=
  let cause := if cause.contains .commitRejected then cause else wrapped .commitRejected cause
  match answers.rollback with
  | none => cause
  | some err => cause ++ wrapped .rollbackFailed err

def commitDurable (answers : CommitRun) (m : Msg V) (ret : Option V) : TxEnd V :=
  match answers.publisher.or answers.durable with
  | some err =>
    if err.contains .commitIndeterminate then
      if m.remoteWriteBatch then
        ⟨{ m with remoteIndeterminate := m.remoteIndeterminate || answers.indeterminate.isNone }, ret,
          errorsJoin (some err) answers.indeterminate, none⟩
      else ⟨m, ret, some err, none⟩
    else
      let refused := if m.remoteWriteBatch then errorsJoin (some err) answers.abort else some err
      ⟨m, ret, refused.map (rejectCommit answers), none⟩
  | none =>
    ⟨{ m with
        txAdmitted := true
        txCommitted := true
        remoteCommitted := m.remoteCommitted || m.remoteWriteBatch }, ret, answers.afterCommit, none⟩

def commitPipelined (answers : CommitRun) (deferred : Bool) (m : Msg V) (ret : Option V) : TxEnd V :=
  match answers.publisher with
  | some err => ⟨m, ret, some (rejectCommit answers err), none⟩
  | none =>
    let m := { m with txAdmitted := m.txAdmitted || answers.ticket }
    match answers.enqueue with
    | some err =>
      if err.contains .commitIndeterminate then ⟨m, ret, some err, none⟩
      else ⟨m, ret, some (rejectCommit answers err), none⟩
    | none =>
      let releaseErr := answers.release.map (wrapped .entityReleaseFailed)
      if answers.ticket && deferred then
        -- prepareCompletion takes the channel over whether or not the pump accepts the entry
        ⟨{ m with deferredCompletion := true }, ret, none, some ⟨m.retChan, ret, releaseErr⟩⟩
      else if answers.ticket && answers.ticketErr.isSome then
        ⟨m, ret, errorsJoin releaseErr answers.ticketErr, none⟩
      else ⟨{ m with txCommitted := true }, ret, errorsJoin releaseErr answers.afterCommit, none⟩

structure Config where
  handlers : String → Option HandlerEntry
  remoteHandler : Bool
  loadedChecker : Bool
  pipelinedCommitter : Bool
  pipelinedAllow : Option (List String)
  completions : Bool

/-- The memory path: nothing is undone, so the handler counts from its first instruction. -/
def memoryTransaction (await : Nat) (m : Msg V) (run : HandlerRun V) : TxEnd V :=
  let m := afterHandler await false false
    { m with txNoRollback := true, noRollbackHandlerStarted := true } run
  match run.result with
  | .error err => ⟨m, none, some err, none⟩
  | .ok ret => ⟨{ m with txAdmitted := true, txCommitted := true }, ret, none, none⟩

/-- The error of a handler in an open transaction: its own, or the conflict and the failed
capture it swallowed. -/
def handlerError (rollbackable : Bool) (run : HandlerRun V) : Option Err :=
  let err := match run.result with
    | .error err => some err
    | .ok _ => none
  let err := if run.createBusy && rollbackable && !errorsIs err .lockTimeout
    then errorsJoin err (some [.lockTimeout, .createdEntityLockConflict]) else err
  errorsJoin err run.captureFailed

/-- A transaction with a RollbackTx: any durable handler, and a memory handler that can roll
back or that carries a remote batch. -/
def rollbackTransaction (cfg : Config) (await : Nat) (entry : HandlerEntry) (m : Msg V)
    (run : HandlerRun V) (answers : CommitRun) : TxEnd V :=
  let rollbackable : Bool := entry.meta.rollback != .none
  let m := { m with txNoRollback := !rollbackable }
  let pipelined : Bool := entry.meta.durability == .pipelined
  if pipelined && !cfg.pipelinedCommitter then ⟨m, none, some [.pipelinedCommitterRequired], none⟩
  else match answers.capture with
    | some err => ⟨m, none, some err, none⟩
    | none =>
      let m := { m with noRollbackHandlerStarted := m.noRollbackHandlerStarted || !rollbackable }
      let m := afterHandler await true rollbackable m run
      let ret := match run.result with
        | .error _ => none
        | .ok ret => ret
      match handlerError rollbackable run with
      | some err => ⟨m, ret, errorsJoin (some err) answers.rollback, none⟩
      | none =>
        match (if m.remoteWriteBatch then answers.finalize else none) with
        | some err =>
          ⟨m, ret, (errorsJoin (some err) answers.abort).map (rejectCommit answers), none⟩
        | none =>
          if pipelined && !m.remoteWriteBatch then
            commitPipelined answers (entry.asyncCompletion && cfg.completions) m ret
          else commitDurable answers m ret

/-- The entry of the message's own transaction. -/
def invokeHandlerTransaction (cfg : Config) (await : Nat) (entry : HandlerEntry) (m : Msg V)
    (run : HandlerRun V) (answers : CommitRun) : TxEnd V :=
  if entry.meta.durability == .pipelined && cfg.pipelinedAllow.any (!·.contains m.name) then
    ⟨m, none, some [.pipelinedNotAllowed], none⟩
  else if entry.meta.rollback == .none && entry.meta.durability == .memory && !m.remoteWriteBatch then
    memoryTransaction await m run
  else rollbackTransaction cfg await entry m run answers

/-- What a transaction leaves on the message it was given. -/
structure Ended (await : Nat) (before : Msg V) (out : TxEnd V) : Prop where
  channel : out.msg.retChan = before.retChan
  resumes : out.msg.resumeEntry = before.resumeEntry
  plan : ∀ plan, out.msg.awaitPlan = some plan → out.msg.noRollbackHandlerStarted = true ∧
    out.msg.deferredCompletion = false ∧ plan.reply = before.retChan ∧ plan.await = await
  deferred : out.msg.deferredCompletion = out.handoff.isSome
  handoff : ∀ handoff, out.handoff = some handoff →
    out.msg.txAdmitted = true ∧ handoff.retChan = before.retChan

variable {await : Nat}

theorem Ended.of_idle (idle : m.Idle) (ret : Option V) (err : Option Err) :
    Ended await m ⟨m, ret, err, none⟩ := by
  obtain ⟨unplanned, direct⟩ := idle
  constructor
  · rfl
  · rfl
  · intro plan planned
    simp [unplanned] at planned
  · exact direct
  · intro handoff given
    contradiction

theorem registerAwait_ok (ok : registerAwait await inTransaction m call = .ok registered) :
    inTransaction = false ∧ ∃ plan : AwaitPlan, plan.reply = m.retChan ∧ plan.await = await ∧
      registered = { m with awaitPlan := some plan } := by
  simp only [registerAwait] at ok
  split at ok
  · contradiction
  rename_i context
  split at ok
  · contradiction
  split at ok
  · contradiction
  split at ok
  · contradiction
  · simp only [Bool.or_eq_true, not_or, Bool.not_eq_true] at context
    exact ⟨context.1.1, _, rfl, rfl, (Except.ok.inj ok).symm⟩

/-- Awaits change the plan of the message and nothing else; in a transaction not even that. -/
theorem registerAwaits_cases (await : Nat) (inTransaction : Bool) (m : Msg V) (calls : List AwaitCall) :
    registerAwaits await inTransaction m calls = m ∨
      inTransaction = false ∧ ∃ plan : AwaitPlan, plan.reply = m.retChan ∧ plan.await = await ∧
        registerAwaits await inTransaction m calls = { m with awaitPlan := some plan } := by
  induction calls generalizing m with
  | nil => exact .inl rfl
  | cons call rest ih =>
    simp only [registerAwaits]
    split
    · exact ih m
    rename_i registered ok
    obtain ⟨outside, plan, reply, named, rfl⟩ := registerAwait_ok ok
    rcases ih { m with awaitPlan := some plan } with same | ⟨_, next, nextReply, nextNamed, same⟩
    · exact .inr ⟨outside, plan, reply, named, same⟩
    · exact .inr ⟨outside, next, nextReply, nextNamed, same⟩

theorem memoryTransaction_ended (await : Nat) (idle : m.Idle) (run : HandlerRun V) :
    Ended await m (memoryTransaction await m run) := by
  obtain ⟨unplanned, direct⟩ := idle
  rcases registerAwaits_cases await false
      { m with txNoRollback := true, noRollbackHandlerStarted := true } run.awaits with
    same | ⟨_, plan, reply, named, same⟩
  · constructor <;> simp only [memoryTransaction, afterHandler, same] <;> split <;> simp [unplanned, direct]
  · constructor <;> simp only [memoryTransaction, afterHandler, same] <;> split <;>
      simp [direct, reply, named]

/-- A message that differs from an idle one in the facts of its dispatch only. -/
structure Noted (before after : Msg V) : Prop where
  channel : after.retChan = before.retChan
  resumes : after.resumeEntry = before.resumeEntry
  unplanned : after.awaitPlan = none
  direct : after.deferredCompletion = false

theorem Noted.ended (noted : Noted before after) (ret : Option V) (err : Option Err) :
    Ended await before ⟨after, ret, err, none⟩ := by
  constructor
  · exact noted.channel
  · exact noted.resumes
  · intro plan planned
    simp [noted.unplanned] at planned
  · exact noted.direct
  · intro handoff given
    contradiction

theorem Noted.ended_of (noted : Noted before after) (channel : next.retChan = after.retChan)
    (resumes : next.resumeEntry = after.resumeEntry) (plan : next.awaitPlan = after.awaitPlan)
    (deferred : next.deferredCompletion = after.deferredCompletion) :
    Ended await before ⟨next, ret, err, none⟩ :=
  Noted.ended ⟨channel.trans noted.channel, resumes.trans noted.resumes, plan.trans noted.unplanned,
    deferred.trans noted.direct⟩ ret err

theorem commitDurable_ended (noted : Noted before m) (answers : CommitRun) (ret : Option V) :
    Ended await before (commitDurable answers m ret) := by
  simp only [commitDurable]
  split
  · split
    · split
      · exact noted.ended_of rfl rfl rfl rfl
      · exact noted.ended _ _
    · exact noted.ended _ _
  · exact noted.ended_of rfl rfl rfl rfl

theorem commitPipelined_ended (noted : Noted before m) (answers : CommitRun) (deferred : Bool)
    (ret : Option V) : Ended await before (commitPipelined answers deferred m ret) := by
  have admitted : Noted before { m with txAdmitted := m.txAdmitted || answers.ticket } :=
    ⟨noted.channel, noted.resumes, noted.unplanned, noted.direct⟩
  simp only [commitPipelined]
  split
  · exact noted.ended _ _
  split
  · split
    · exact admitted.ended _ _
    · exact admitted.ended _ _
  split
  · rename_i handed
    simp only [Bool.and_eq_true] at handed
    constructor
    · exact noted.channel
    · exact noted.resumes
    · intro plan planned
      simp [noted.unplanned] at planned
    · rfl
    · intro handoff given
      cases given
      simp [handed.1, noted.channel]
  · split
    · exact admitted.ended _ _
    · exact noted.ended_of rfl rfl rfl rfl

theorem rollbackTransaction_ended (cfg : Config) (await : Nat) (entry : HandlerEntry)
    (idle : m.Idle) (run : HandlerRun V) (answers : CommitRun) :
    Ended await m (rollbackTransaction cfg await entry m run answers) := by
  obtain ⟨unplanned, direct⟩ := idle
  simp only [rollbackTransaction]
  generalize (entry.meta.rollback != RollbackPolicy.none) = rollbackable
  have started : Noted m { m with txNoRollback := !rollbackable } := ⟨rfl, rfl, unplanned, direct⟩
  split
  · exact started.ended _ _
  split
  · exact started.ended _ _
  have called : Noted m (afterHandler await true rollbackable
      { m with
        txNoRollback := !rollbackable
        noRollbackHandlerStarted := m.noRollbackHandlerStarted || !rollbackable } run) := by
    -- an Await in an open transaction is refused, so no plan is left on the message
    rcases registerAwaits_cases await true
        { m with
          txNoRollback := !rollbackable
          noRollbackHandlerStarted := m.noRollbackHandlerStarted || !rollbackable } run.awaits with
      same | ⟨inside, _⟩
    · simp only [afterHandler, same]
      exact ⟨rfl, rfl, unplanned, direct⟩
    · contradiction
  generalize afterHandler await true rollbackable _ run = m' at called
  split
  · exact called.ended _ _
  split
  · exact called.ended _ _
  split
  · exact commitPipelined_ended called _ _ _
  · exact commitDurable_ended called _ _

theorem invokeHandlerTransaction_ended (cfg : Config) (await : Nat) (entry : HandlerEntry)
    (idle : m.Idle) (run : HandlerRun V) (answers : CommitRun) :
    Ended await m (invokeHandlerTransaction cfg await entry m run answers) := by
  simp only [invokeHandlerTransaction]
  split
  · exact .of_idle idle _ _
  split
  · exact memoryTransaction_ended await idle run
  · exact rollbackTransaction_ended cfg await entry idle run answers

end Roost.Nest
