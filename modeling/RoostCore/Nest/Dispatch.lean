import RoostCore.Nest.Transaction

/-! One dispatch of a message, from the start check on a worker to the error its reply
would carry. -/
namespace Roost.Nest
variable {V : Type}

/-- What the getter and the references taken on the declared targets gave. -/
inductive Load where
  | loaded
  | cold
  | failed (err : Err)
  | missing
  | evicted (primary : Bool)

/-- Why the locks of the targets were not taken. -/
inductive LockFailure where
  | timeout (removed : Bool)
  | mixed
  | pending
  | changed

def LockFailure.err : LockFailure → Err
  | .timeout _ => [.lockTimeout]
  | .mixed => [.entityLockGroupMix]
  | .pending => [.entityGroupTransitionPending]
  | .changed => [.entityLockGroupChanged]

/-- How the remote batch of the message was closed. -/
structure RemoteFinish where
  commit : Option Err
  abort : Option Err
  close : Option Err
  callbacks : Option Err

/-- Every answer of the environment that one dispatch reads. The fence and the request
context are read when the stage starts and again before the handler. -/
structure Attempt (V : Type) where
  canceled : Bool
  snapshots : Option Err
  batch : Except Err Bool
  io : Option Err
  fencedNow : Bool
  canceledNow : Bool
  load : Load
  pending : Bool
  lock : Option LockFailure
  arguments : Option Err
  run : HandlerRun V
  commit : CommitRun
  released : Option Err
  finish : RemoteFinish
  references : Option Err

def checkHandlerStart (fenced canceled : Bool) : Option Err :=
  if fenced then some [.nestFenced] else if canceled then some [.nestCanceled] else none

/-- The business part of a dispatch. `cold` is the unexported `errDeclaredTargetCold`: only
the functions below make it, and only before the handler is called. -/
structure LogicEnd (V : Type) where
  tx : TxEnd V
  cold : Bool := false
  ran : List (Ran V) := []

def beforeIOPreparation (cfg : Config) (m : Msg V) : Bool := cfg.loadedChecker && !m.prepared

def failed (m : Msg V) (err : Err) : LogicEnd V := ⟨⟨m, none, some err, none⟩, false, []⟩

def declaredTargetCold (m : Msg V) (err : Err) : LogicEnd V :=
  ⟨⟨m, none, some (wrapped .declaredTargetCold err), none⟩, true, []⟩

/-- The handler of an entry: registered code, or the wrapper that checks the entities of a
resumed segment before it calls the callback. -/
def runEntry (cfg : Config) (await : Nat) (m : Msg V) (entry : HandlerEntry) (a : Attempt V) :
    LogicEnd V :=
  match m.resumeEntry, a.arguments with
  | some _, some err =>
    ⟨invokeHandlerTransaction cfg await entry m ⟨[], false, false, none, .error err⟩ a.commit, false, []⟩
  | some resume, none =>
    ⟨invokeHandlerTransaction cfg await entry m a.run a.commit, false, [.callback resume]⟩
  | none, _ =>
    ⟨invokeHandlerTransaction cfg await entry m a.run a.commit, false, [.handler m.name m.params]⟩

def dispatchLoadedEntities (cfg : Config) (await : Nat) (m : Msg V) (entry : HandlerEntry)
    (a : Attempt V) : LogicEnd V :=
  if a.pending then failed m [.entityGroupTransitionPending]
  else match a.lock with
    | some (.timeout true) =>
      if beforeIOPreparation cfg m then declaredTargetCold m [.lockTimeout] else failed m [.lockTimeout]
    | some failure => failed m failure.err
    | none =>
      let done := runEntry cfg await m entry a
      { done with tx := { done.tx with err := errorsJoin done.tx.err a.released } }

/-- `singleDispatch` and `dispatchMany` after the handler was found. -/
def dispatchTargets (cfg : Config) (await : Nat) (m : Msg V) (entry : HandlerEntry) (a : Attempt V) :
    LogicEnd V :=
  match a.load with
  | .cold =>
    if beforeIOPreparation cfg m then declaredTargetCold m [.coldLoadInLogic]
    else failed m [.coldLoadInLogic]
  | .failed err => failed m err
  | .missing => failed m [.entityNotFound]
  | .evicted primary =>
    if beforeIOPreparation cfg m then declaredTargetCold m [.entityNotFound]
    else if primary then failed m [.entityNotFound]
    else dispatchLoadedEntities cfg await m entry a
  | .loaded => dispatchLoadedEntities cfg await m entry a

def runNestLogic (cfg : Config) (await : Nat) (m : Msg V) (a : Attempt V) : LogicEnd V :=
  match checkHandlerStart a.fencedNow a.canceledNow with
  | some err => failed m err
  | none =>
    if m.resumeEntry.isSome then dispatchTargets cfg await m ⟨.memory, false⟩ a
    else match cfg.handlers m.name with
      | none => failed m [.handlerNotFound]
      | some entry => dispatchTargets cfg await m entry a

/-- `finishRemoteWriteBatch`: the recorded facts decide, not the error of the dispatch. -/
def finishRemoteWriteBatch (m : Msg V) (finish : RemoteFinish) : Msg V × Option Err :=
  if !m.remoteWriteBatch then (m, none)
  else if m.remoteIndeterminate then ({ m with remoteWriteBatch := false }, finish.close)
  else if m.remoteCommitted then
    match finish.commit with
    | none =>
      ({ m with remoteWriteBatch := false, remoteConfirmed := true }, errorsJoin finish.close finish.callbacks)
    | some err =>
      ({ m with
          remoteWriteBatch := false
          remotePartRejected := !err.contains .remotePersistenceIndeterminate },
        errorsJoin (some err) finish.close)
  else ({ m with remoteWriteBatch := false }, errorsJoin finish.abort finish.close)

/-- Closes the remote batch and gives the prepared references back. -/
def finishDispatchResources (m : Msg V) (a : Attempt V) (err : Option Err) : Msg V × Option Err :=
  let (m, remoteErr) := finishRemoteWriteBatch m a.finish
  let err := errorsJoin err remoteErr
  if m.prepared then ({ m with prepared := false }, errorsJoin err a.references) else (m, err)

/-- The stage up to the business part: remote snapshots, the remote batch and, on the I/O
lane, the declared targets. -/
def prepareStage (ioStage fenced : Bool) (m : Msg V) (a : Attempt V) : Msg V × Option Err :=
  match checkHandlerStart fenced a.canceled with
  | some err => (m, some err)
  | none =>
    match a.snapshots with
    | some err => (m, some err)
    | none =>
      match (if m.hasRemote then a.batch else .ok false) with
      | .error err => (m, some err)
      | .ok batch =>
        let m := { m with remoteWriteBatch := batch }
        if ioStage then ({ m with prepared := true }, a.io) else (m, none)

structure DispatchEnd (V : Type) where
  logic : LogicEnd V
  rerouted : Bool

def dispatchNest (cfg : Config) (fenced : Bool) (await : Nat) (ioStage : Bool) (m : Msg V)
    (a : Attempt V) : DispatchEnd V :=
  let logic := match prepareStage ioStage fenced m a with
    | (m, some err) => failed m err
    | (m, none) => runNestLogic cfg await m a
  if !ioStage && logic.cold && cfg.remoteHandler then ⟨logic, true⟩
  else
    let (m, err) := finishDispatchResources logic.tx.msg a logic.tx.err
    ⟨{ logic with tx := { logic.tx with msg := m, err := annotateCommitOutcome m err } }, false⟩

/-- What a dispatch of an idle message amounts to. A cold target has run no handler code
and left the message idle; what ran is the callback of a resumed segment, or the
registered handler of a message that carries none. -/
structure Dispatched (await : Nat) (before : Msg V) (out : LogicEnd V) : Prop where
  ended : Ended await before out.tx
  cold : out.cold = true → out.ran = [] ∧ out.tx.msg.Idle ∧ out.tx.handoff = none
  ran : out.ran = [] ∨ (before.resumeEntry = none ∧ out.ran = [.handler before.name before.params]) ∨
    ∃ resume, before.resumeEntry = some resume ∧ out.ran = [.callback resume]

variable {m : Msg V}

theorem failed_dispatched (await : Nat) (idle : m.Idle) (err : Err) :
    Dispatched await m (failed m err) := by
  constructor
  · exact .of_idle idle _ _
  · intro cold
    contradiction
  · exact .inl rfl

theorem declaredTargetCold_dispatched (await : Nat) (idle : m.Idle) (err : Err) :
    Dispatched await m (declaredTargetCold m err) := by
  constructor
  · exact .of_idle idle _ _
  · intro _
    exact ⟨rfl, idle, rfl⟩
  · exact .inl rfl

variable (cfg : Config)

theorem runEntry_dispatched (await : Nat) (idle : m.Idle)
    (entry : HandlerEntry) (a : Attempt V) : Dispatched await m (runEntry cfg await m entry a) := by
  simp only [runEntry]
  split
  all_goals refine ⟨invokeHandlerTransaction_ended cfg await entry idle _ _, nofun, ?_⟩
  · exact .inl rfl
  · rename_i resume resumes _
    exact .inr (.inr ⟨resume, resumes, rfl⟩)
  · rename_i registered
    exact .inr (.inl ⟨registered, rfl⟩)

theorem Ended.with_err (ended : Ended await before out) (err : Option Err) :
    Ended await before { out with err } :=
  { ended with }

theorem dispatchLoadedEntities_dispatched (await : Nat) (idle : m.Idle)
    (entry : HandlerEntry) (a : Attempt V) :
    Dispatched await m (dispatchLoadedEntities cfg await m entry a) := by
  simp only [dispatchLoadedEntities]
  split
  · exact failed_dispatched await idle _
  split
  · split
    · exact declaredTargetCold_dispatched await idle _
    · exact failed_dispatched await idle _
  · exact failed_dispatched await idle _
  · obtain ⟨ended, cold, ran⟩ := runEntry_dispatched cfg await idle entry a
    exact ⟨ended.with_err _, cold, ran⟩

theorem dispatchTargets_dispatched (await : Nat) (idle : m.Idle)
    (entry : HandlerEntry) (a : Attempt V) : Dispatched await m (dispatchTargets cfg await m entry a) := by
  simp only [dispatchTargets]
  split
  · split
    · exact declaredTargetCold_dispatched await idle _
    · exact failed_dispatched await idle _
  · exact failed_dispatched await idle _
  · exact failed_dispatched await idle _
  · split
    · exact declaredTargetCold_dispatched await idle _
    split
    · exact failed_dispatched await idle _
    · exact dispatchLoadedEntities_dispatched cfg await idle entry a
  · exact dispatchLoadedEntities_dispatched cfg await idle entry a

theorem runNestLogic_dispatched (await : Nat) (idle : m.Idle)
    (a : Attempt V) : Dispatched await m (runNestLogic cfg await m a) := by
  simp only [runNestLogic]
  split
  · exact failed_dispatched await idle _
  split
  · exact dispatchTargets_dispatched cfg await idle _ a
  split
  · exact failed_dispatched await idle _
  · exact dispatchTargets_dispatched cfg await idle _ a

/-- Preparation and clean-up touch the remote and reference facts only. -/
structure Aside (before after : Msg V) : Prop where
  name : after.name = before.name
  params : after.params = before.params
  channel : after.retChan = before.retChan
  resumes : after.resumeEntry = before.resumeEntry
  plan : after.awaitPlan = before.awaitPlan
  deferred : after.deferredCompletion = before.deferredCompletion
  admitted : after.txAdmitted = before.txAdmitted
  started : after.noRollbackHandlerStarted = before.noRollbackHandlerStarted

theorem Aside.rfl : Aside m m := ⟨.refl _, .refl _, .refl _, .refl _, .refl _, .refl _, .refl _, .refl _⟩

theorem Aside.idle (aside : Aside before after) (idle : before.Idle) : after.Idle :=
  ⟨aside.plan.trans idle.1, aside.deferred.trans idle.2⟩

theorem prepareStage_aside (ioStage fenced : Bool) (m : Msg V) (a : Attempt V) :
    Aside m (prepareStage ioStage fenced m a).1 := by
  simp only [prepareStage]
  split
  · exact .rfl
  split
  · exact .rfl
  split
  · exact .rfl
  split
  · exact ⟨.refl _, .refl _, .refl _, .refl _, .refl _, .refl _, .refl _, .refl _⟩
  · exact ⟨.refl _, .refl _, .refl _, .refl _, .refl _, .refl _, .refl _, .refl _⟩

theorem finishRemoteWriteBatch_aside (m : Msg V) (finish : RemoteFinish) :
    Aside m (finishRemoteWriteBatch m finish).1 := by
  simp only [finishRemoteWriteBatch]
  split
  · exact .rfl
  split
  · constructor <;> exact .refl _
  split
  · split <;> constructor <;> exact .refl _
  · constructor <;> exact .refl _

theorem finishDispatchResources_aside (m : Msg V) (a : Attempt V) (err : Option Err) :
    Aside m (finishDispatchResources m a err).1 := by
  simp only [finishDispatchResources]
  have closed := finishRemoteWriteBatch_aside m a.finish
  split
  · exact { closed with }
  · exact closed

theorem Ended.before_aside (aside : Aside before prepared) (ended : Ended await prepared out) :
    Ended await before out := by
  obtain ⟨channel, resumes, plan, deferred, handoff⟩ := ended
  rw [aside.channel] at channel plan handoff
  rw [aside.resumes] at resumes
  exact ⟨channel, resumes, plan, deferred, handoff⟩

theorem Ended.after_aside (ended : Ended await before out) (aside : Aside out.msg m)
    (err : Option Err) : Ended await before { out with msg := m, err } := by
  constructor
  · exact aside.channel.trans ended.channel
  · exact aside.resumes.trans ended.resumes
  · intro plan planned
    obtain ⟨started, direct, reply, named⟩ := ended.plan plan (aside.plan.symm.trans planned)
    exact ⟨aside.started.trans started, aside.deferred.trans direct, reply, named⟩
  · exact aside.deferred.trans ended.deferred
  · intro handoff given
    obtain ⟨admitted, channel⟩ := ended.handoff handoff given
    exact ⟨aside.admitted.trans admitted, channel⟩

theorem Dispatched.before_aside (aside : Aside before prepared)
    (done : Dispatched await prepared out) : Dispatched await before out := by
  obtain ⟨ended, cold, ran⟩ := done
  rw [aside.resumes, aside.name, aside.params] at ran
  exact ⟨ended.before_aside aside, cold, ran⟩

/-- A rerouted dispatch has met a cold target; any other one has ended. -/
theorem dispatchNest_dispatched (fenced : Bool) (await : Nat) (ioStage : Bool)
    (idle : m.Idle) (a : Attempt V) :
    Dispatched await m (dispatchNest cfg fenced await ioStage m a).logic ∧
      ((dispatchNest cfg fenced await ioStage m a).rerouted = true →
        (dispatchNest cfg fenced await ioStage m a).logic.cold = true) := by
  have aside := prepareStage_aside ioStage fenced m a
  simp only [dispatchNest]
  generalize prepareStage ioStage fenced m a = staged at aside
  obtain ⟨prepared, refused⟩ := staged
  have logic : Dispatched await m (match (prepared, refused) with
      | (m, some err) => failed m err
      | (m, none) => runNestLogic cfg await m a) := by
    cases refused with
    | none => exact (runNestLogic_dispatched cfg await (aside.idle idle) a).before_aside aside
    | some err => exact (failed_dispatched await (aside.idle idle) err).before_aside aside
  generalize (match (prepared, refused) with
      | (m, some err) => failed m err
      | (m, none) => runNestLogic cfg await m a) = out at logic
  split
  · rename_i reroute
    simp only [Bool.and_eq_true] at reroute
    exact ⟨logic, fun _ => reroute.1.2⟩
  · refine ⟨?_, nofun⟩
    have cleaned := finishDispatchResources_aside out.tx.msg a out.tx.err
    constructor
    · exact logic.ended.after_aside cleaned _
    · intro cold
      obtain ⟨quiet, idle, direct⟩ := logic.cold cold
      exact ⟨quiet, cleaned.idle idle, direct⟩
    · exact logic.ran

end Roost.Nest
