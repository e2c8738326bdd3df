import Mathlib.Data.List.Basic

/-! Messages of the Nest dispatcher: the data of a request, the facts one dispatch leaves
on its message, and the decisions that read them once a dispatch has ended. -/
namespace Roost.Nest

/-- The errors that the dispatch path tests with `errors.Is` or puts in front of a reply. -/
inductive Sentinel where
  | lockTimeout
  | entityLockGroupChanged
  | entityLockGroupMix
  | entityGroupTransitionPending
  | entityGroupTransitionScheduled
  | declaredTargetCold
  | coldLoadInLogic
  | entityNotFound
  | handlerNotFound
  | nestStopped
  | nestFenced
  | nestCanceled
  | queueFull
  | delayTooLong
  | pipelinedNotAllowed
  | pipelinedCommitterRequired
  | commitRejected
  | commitIndeterminate
  | afterCommitFailed
  | entityReleaseFailed
  | rollbackFailed
  | remotePartRejected
  | remotePersistenceIndeterminate
  | nestedTransactionCommitted
  | createdEntityLockConflict
  | nonRollbackNotRequeued
  | awaitContext
  | awaitSignature
  | awaitPending
  | other (code : Nat)
  deriving DecidableEq, Repr

/-- A non-nil error, as the sentinels its chain reaches. -/
abbrev Err := List Sentinel

/-- `errors.Is`. -/
def errorsIs (err : Option Err) (sentinel : Sentinel) : Bool :=
  match err with
  | none => false
  | some chain => chain.contains sentinel

/-- `errors.Join` of two errors, either of which may be nil. -/
def errorsJoin : Option Err → Option Err → Option Err
  | none, second => second
  | some first, none => some first
  | some first, some second => some (first ++ second)

/-- `fmt.Errorf("%w: %w", sentinel, err)`. -/
def wrapped (sentinel : Sentinel) (err : Err) : Err := sentinel :: err

/-- What a message is addressed to; with it the message type of an ordinary request. -/
inductive Targets where
  | single (tid : Int)
  | multi (tids : List Int)
  | multiGroup (groups : List (List Int))
  deriving DecidableEq, Repr

/-- The targets in the order of the handler's parameters. -/
def Targets.ids : Targets → List Int
  | .single tid => [tid]
  | .multi tids => tids
  | .multiGroup groups => groups.flatten

/-- What the resumed segment of an Await runs: its callback, with what the work produced. -/
structure Resume (V : Type) where
  await : Nat
  value : V
  workErr : Option Err
  deriving DecidableEq, Repr

/-- An Await that the running segment has registered. `reply` is the reply channel the
plan answers on once it has taken over. -/
structure AwaitPlan where
  await : Nat
  reply : Option Nat
  name : String
  ids : List Int
  count : Nat
  chooses : Bool
  deriving DecidableEq, Repr

structure Msg (V : Type) where
  name : String
  targets : Targets
  params : List V
  retChan : Option Nat
  pendingRequeues : Nat := 0
  cost : Bool := false
  hasRemote : Bool := false
  remoteWriteBatch : Bool := false
  remoteIndeterminate : Bool := false
  remoteCommitted : Bool := false
  remoteConfirmed : Bool := false
  remotePartRejected : Bool := false
  txAdmitted : Bool := false
  txCommitted : Bool := false
  txNoRollback : Bool := false
  noRollbackHandlerStarted : Bool := false
  createLockConflictNoRollback : Bool := false
  nestedTxCommitted : Bool := false
  deferredCompletion : Bool := false
  prepared : Bool := false
  awaitPlan : Option AwaitPlan := none
  resumeEntry : Option (Resume V) := none
  deriving DecidableEq, Repr

namespace Msg
variable {V : Type} (m : Msg V)

/-- Copies the request and none of the facts of the dispatch. -/
def clone : Msg V where
  name := m.name
  targets := m.targets
  params := m.params
  retChan := m.retChan
  pendingRequeues := m.pendingRequeues
  cost := m.cost
  hasRemote := m.hasRemote

def transactionPastCommitPoint (err : Option Err) : Bool :=
  m.txAdmitted || m.nestedTxCommitted || m.remoteCommitted || m.remoteIndeterminate ||
    errorsIs err .afterCommitFailed || errorsIs err .commitIndeterminate

def requeueAllowed (err : Option Err) : Bool :=
  !m.transactionPastCommitPoint err && !m.createLockConflictNoRollback && !m.noRollbackHandlerStarted

def replyAfterCommit : Bool := if m.remoteCommitted then m.remoteConfirmed else m.txCommitted

/-- A message as the dispatcher hands it to a worker: no dispatch has begun. -/
def Idle : Prop := m.awaitPlan = none ∧ m.deferredCompletion = false
  deriving Decidable

theorem requeueAllowed_of_admitted {m : Msg V} (admitted : m.txAdmitted = true) (err : Option Err) :
    m.requeueAllowed err = false := by
  simp [requeueAllowed, transactionPastCommitPoint, admitted]

theorem requeueAllowed_of_started {m : Msg V} (started : m.noRollbackHandlerStarted = true)
    (err : Option Err) : m.requeueAllowed err = false := by
  simp [requeueAllowed, started]

end Msg

variable {V : Type}

/-- Marks a failed reply with what was committed all the same. -/
def annotateCommitOutcome (m : Msg V) : Option Err → Option Err
  | none => none
  | some err =>
    let err := if m.replyAfterCommit && !err.contains .afterCommitFailed
      then wrapped .afterCommitFailed err else err
    let err := if m.remotePartRejected && !err.contains .remotePartRejected
      then wrapped .remotePartRejected err else err
    some (if m.nestedTxCommitted && !err.contains .afterCommitFailed &&
        !err.contains .nestedTransactionCommitted
      then wrapped .nestedTransactionCommitted err else err)

def entityGroupDispatchRequeueMax : Nat := 400

def transientDispatch (err : Option Err) : Bool :=
  errorsIs err .lockTimeout || errorsIs err .entityLockGroupChanged

def isRequeueableDispatchError (err : Option Err) : Bool :=
  transientDispatch err || errorsIs err .entityGroupTransitionPending

/-- The copy that is admitted again, unless the message has used up its requeues. -/
def requeueNestDispatch (m : Msg V) : Option (Msg V) :=
  if m.pendingRequeues ≥ entityGroupDispatchRequeueMax then none
  else some { m.clone with pendingRequeues := m.pendingRequeues + 1 }

/-- What follows the end of a dispatch: the message with the reply it still owes, and the
copy that goes to the delayed queue with the reply channel. -/
structure Verdict (V : Type) where
  msg : Msg V
  err : Option Err
  requeued : Option (Msg V)

def requeueOrAnnotateNotRequeued (m : Msg V) (failure : Option Err) : Verdict V :=
  let err := if errorsIs failure .entityGroupTransitionScheduled then none else failure
  if m.requeueAllowed err then
    -- both requeue functions make the same copy, and the second one sees a nil error after the first
    if isRequeueableDispatchError err then
      match requeueNestDispatch m with
      | some next => ⟨{ m with retChan := none }, none, some next⟩
      | none => ⟨m, err, none⟩
    else ⟨m, err, none⟩
  else
    let err := if m.createLockConflictNoRollback && isRequeueableDispatchError err &&
        !errorsIs err .createdEntityLockConflict
      then err.map (wrapped .createdEntityLockConflict) else err
    let err := if m.noRollbackHandlerStarted && !m.transactionPastCommitPoint err &&
        isRequeueableDispatchError err && !errorsIs err .nonRollbackNotRequeued
      then err.map (wrapped .nonRollbackNotRequeued) else err
    ⟨m, err, none⟩

theorem requeueNestDispatch_some {m next : Msg V} (made : requeueNestDispatch m = some next) :
    next = { m.clone with pendingRequeues := m.pendingRequeues + 1 } := by
  simp only [requeueNestDispatch] at made
  split at made
  · contradiction
  · exact (Option.some.inj made).symm

/-- Either the message keeps its reply channel and nothing is admitted again, or an
allowed requeue has moved the channel to a copy of the request. -/
theorem requeueOrAnnotateNotRequeued_cases (m : Msg V) (failure : Option Err) :
    (∃ err, requeueOrAnnotateNotRequeued m failure = ⟨m, err, none⟩) ∨
      ((∃ err, m.requeueAllowed err = true) ∧
        requeueOrAnnotateNotRequeued m failure = ⟨{ m with retChan := none }, none,
          some { m.clone with pendingRequeues := m.pendingRequeues + 1 }⟩) := by
  simp only [requeueOrAnnotateNotRequeued]
  generalize (if errorsIs failure .entityGroupTransitionScheduled = true then none else failure) = err
  split
  · rename_i allowed
    split
    · cases made : requeueNestDispatch m with
      | none => exact .inl ⟨err, rfl⟩
      | some next =>
        rw [requeueNestDispatch_some made]
        exact .inr ⟨⟨err, allowed⟩, rfl⟩
    · exact .inl ⟨err, rfl⟩
  · exact .inl ⟨_, rfl⟩

end Roost.Nest
