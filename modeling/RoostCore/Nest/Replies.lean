import Mathlib.Algebra.Order.BigOperators.Group.List
import Mathlib.Algebra.Order.Ring.Nat
import RoostCore.Nest.Engine

/-! Every admitted synchronous request is answered exactly once. The one slot of the reply
channel is an obligation that some activity of the request carries until it sends: each
step passes it on or discharges it. -/
namespace Roost.Nest
open List Engine
variable {V : Type}

def holds (c : Nat) (channel : Option Nat) : Nat := if channel = some c then 1 else 0

/-- The values that a stage still has to send on channel `c`. -/
def owes (c : Nat) : Stage V → Nat
  | .queued m _ | .delayed m | .sending m | .flushing m => holds c m.retChan
  | .closing m _ _ | .replying m _ _ => if m.deferredCompletion then 0 else holds c m.retChan
  | .awaiting plan | .working plan => holds c plan.reply
  | .completing handoff => holds c handoff.retChan

attribute [simp] owes.eq_1 owes.eq_2 owes.eq_3 owes.eq_4 owes.eq_5 owes.eq_6 owes.eq_7 owes.eq_8 owes.eq_9

/-- The facts on a message that make the hand-over of its channel unambiguous: a plan has
captured the channel of a segment that is never requeued, and a deferred completion has
taken it from a transaction that is past its commit point. -/
def Sound : Stage V → Prop
  | .queued m _ | .delayed m | .sending m | .flushing m => m.Idle
  | .closing m _ _ => (∀ plan, m.awaitPlan = some plan → m.noRollbackHandlerStarted = true ∧
      m.deferredCompletion = false ∧ plan.reply = m.retChan) ∧
      (m.deferredCompletion = true → m.txAdmitted = true)
  | .replying m _ _ => ∀ plan, m.awaitPlan = some plan → m.deferredCompletion = false ∧
      plan.reply = m.retChan
  | .awaiting _ | .working _ | .completing _ => True

def answers (c : Nat) (replies : List (Nat × Reply V)) : Nat := (replies.map Prod.fst).count c

@[simp] theorem answers_nil (c : Nat) : answers c ([] : List (Nat × Reply V)) = 0 := rfl

@[simp] theorem answers_append (c : Nat) (first second : List (Nat × Reply V)) :
    answers c (first ++ second) = answers c first + answers c second := by
  simp [answers]

@[simp] theorem answers_send (c : Nat) (channel : Option Nat) (reply : Reply V) :
    answers c (send channel reply) = holds c channel := by
  cases channel with
  | none => simp [send, holds]
  | some channel => simp [send, answers, holds, count_singleton]

/-- The obligations that an effect leaves, with those it has discharged. -/
def Effect.total (effect : Effect V) (c : Nat) : Nat :=
  (effect.stages.map fun stage => owes c stage).sum + answers c effect.replies

/-- A step keeps the obligation of the stage it starts from. -/
structure Passes (stage : Stage V) (effect : Effect V) : Prop where
  sound : ∀ next ∈ effect.stages, Sound next
  total : ∀ c, effect.total c = owes c stage

variable {stage : Stage V} {effect : Effect V}

theorem Passes.ends (done : effect.stages = [])
    (total : ∀ c, answers c effect.replies = owes c stage) : Passes stage effect := by
  constructor
  · simp [done]
  · intro c
    simp [Effect.total, done, total c]

theorem Passes.moves (one : effect.stages = [new]) (silent : effect.replies = [])
    (sound : Sound new) (same : ∀ c, owes c new = owes c stage) : Passes stage effect := by
  constructor
  · simpa [one] using sound
  · intro c
    simp [Effect.total, one, silent, same c]

variable {m : Msg V}

theorem sent_passes (owed : ∀ c, owes c stage = holds c m.retChan)
    (accepted : ∀ next, answer = .ok next → Sound next ∧ ∀ c, owes c next = holds c m.retChan) :
    Passes stage (sent m answer) := by
  cases answer with
  | error err => exact .ends rfl fun c => by simp [sent, owed c]
  | ok next =>
    obtain ⟨sound, same⟩ := accepted next rfl
    exact .moves rfl rfl sound fun c => by rw [same c, owed c]

variable {cfg : Config} {e : Engine V}

theorem trySendMsg_ok (ok : trySendMsg cfg e m answer = .ok stage) :
    ∃ ioStage, stage = .queued m ioStage := by
  simp only [trySendMsg] at ok
  split at ok
  · contradiction
  split at ok
  · contradiction
  split at ok
  · contradiction
  · exact ⟨_, (Except.ok.inj ok).symm⟩

theorem tryDelaySendMsg_ok (ok : tryDelaySendMsg e m answer = .ok stage) :
    e.stopped = false ∧ stage = .delayed m := by
  simp only [tryDelaySendMsg] at ok
  split at ok
  · contradiction
  split at ok
  · contradiction
  split at ok
  · contradiction
  rename_i running
  split at ok
  · contradiction
  · exact ⟨by simpa using running, (Except.ok.inj ok).symm⟩

/-- What a step of an activity can do, and what it logs. -/
inductive Acts (cfg : Config) (e : Engine V) (r : Nat) : Stage V → Effect V → List (Event V) → Prop where
  | dispatch (m : Msg V) (ioStage : Bool) (a : Attempt V) {effect : Effect V}
      (acted : (Stage.queued m ioStage).act cfg e (.dispatch a) = some effect) :
      Acts cfg e r (.queued m ioStage) effect ((Stage.queued m ioStage).events cfg e r (.dispatch a))
  | close (m : Msg V) (ret : Option V) (err : Option Err) (answer : DelayAnswer) {effect : Effect V}
      (acted : (Stage.closing m ret err).act cfg e (.close answer) = some effect) :
      Acts cfg e r (.closing m ret err) effect []
  | reply (m : Msg V) (ret : Option V) (err : Option Err) :
      Acts cfg e r (.replying m ret err) (replyDispatch m ret err) ((Stage.replying m ret err).events cfg e r .reply)
  | due (m : Msg V) (running : e.stopped = false) : Acts cfg e r (.delayed m) { stages := [.sending m] } []
  | send (m : Msg V) (answer : Admission) : Acts cfg e r (.sending m) (sent m (trySendMsg cfg e m answer)) []
  | flush (m : Msg V) :
      Acts cfg e r (.flushing m) { stages := [], replies := Nest.send m.retChan (.error [.nestStopped]) } []
  | start (plan : AwaitPlan) : Acts cfg e r (.awaiting plan) { stages := [.working plan] } []
  | work (plan : AwaitPlan) (w : WorkRun V) {effect : Effect V}
      (acted : (Stage.working plan).act cfg e (.work w) = some effect) :
      Acts cfg e r (.working plan) effect ((Stage.working plan).events cfg e r (.work w))
  | complete (handoff : Handoff V) (reply : Reply V) (fences : Bool) :
      Acts cfg e r (.completing handoff) { stages := [], replies := Nest.send handoff.retChan reply, fences } []

theorem act_acts (r : Nat) (acted : stage.act cfg e choice = some effect) :
    Acts cfg e r stage effect (stage.events cfg e r choice) := by
  cases stage <;> cases choice <;> try contradiction
  case queued.dispatch => exact .dispatch _ _ _ acted
  case closing.close => exact .close _ _ _ _ acted
  case working.work => exact .work _ _ acted
  case delayed.due =>
    simp only [Stage.act] at acted
    split at acted
    · contradiction
    rename_i running
    cases acted
    exact .due _ (by simpa using running)
  case replying.reply => cases acted; exact .reply _ _ _
  all_goals cases acted
  case sending.send => exact .send _ _
  case flushing.flush => exact .flush _
  case awaiting.start => exact .start _
  case completing.complete => exact .complete _ _ _

theorem trySendMsg_passes (cfg : Config) (e : Engine V) (idle : m.Idle) (answer : Admission)
    (owed : ∀ c, owes c stage = holds c m.retChan) :
    Passes stage (sent m (trySendMsg cfg e m answer)) := by
  apply sent_passes owed
  intro next ok
  obtain ⟨ioStage, rfl⟩ := trySendMsg_ok ok
  exact ⟨idle, fun _ => rfl⟩

theorem dispatch_passes (cfg : Config) (e : Engine V) (idle : m.Idle) (ioStage : Bool)
    (a : Attempt V)
    (acted : (Stage.queued m ioStage).act cfg e (.dispatch a) = some effect) :
    Passes (.queued m ioStage) effect := by
  obtain ⟨done, reroutes⟩ := dispatchNest_dispatched cfg e.fenced e.awaits ioStage idle a
  simp only [Stage.act, Option.some.injEq] at acted
  generalize dispatchNest cfg e.fenced e.awaits ioStage m a = out at done reroutes acted
  have ended := done.ended
  subst acted
  split
  · rename_i rerouted
    obtain ⟨-, idle, -⟩ := done.cold (reroutes rerouted)
    exact .moves rfl rfl idle fun c => by simp [ended.channel]
  have closing : ∀ ret err, Sound (Stage.closing out.logic.tx.msg ret err) := by
    intro ret err
    constructor
    · intro plan planned
      obtain ⟨started, direct, reply, -⟩ := ended.plan plan planned
      exact ⟨started, direct, reply.trans ended.channel.symm⟩
    · intro deferred
      rw [ended.deferred, Option.isSome_iff_exists] at deferred
      obtain ⟨handoff, given⟩ := deferred
      exact (ended.handoff handoff given).1
  cases given : out.logic.tx.handoff with
  | none =>
    have direct : out.logic.tx.msg.deferredCompletion = false := by simp [ended.deferred, given]
    exact .moves rfl rfl (closing _ _) fun c => by simp [direct, ended.channel]
  | some handoff =>
    have deferred : out.logic.tx.msg.deferredCompletion = true := by simp [ended.deferred, given]
    have channel := (ended.handoff handoff given).2
    constructor
    · intro next member
      rcases mem_cons.mp member with rfl | member
      · exact closing _ _
      simp only [Option.map_some, Option.toList_some, mem_singleton] at member
      subst member
      trivial
    · intro c
      simp [Effect.total, deferred, channel]

theorem close_passes (cfg : Config) (e : Engine V) (sound : Sound (.closing m ret err))
    (answer : DelayAnswer) (acted : (Stage.closing m ret err).act cfg e (.close answer) = some effect) :
    Passes (.closing m ret err) effect := by
  obtain ⟨planned, deferred⟩ := sound
  simp only [Stage.act, Option.some.injEq] at acted
  subst acted
  rcases requeueOrAnnotateNotRequeued_cases m err with ⟨kept, same⟩ | ⟨⟨seen, allowed⟩, same⟩
  · rw [same]
    refine .moves rfl rfl ?_ fun _ => rfl
    intro plan given
    exact (planned plan given).2
  · -- a requeue is allowed, so neither a plan nor a completion holds the channel
    have unplanned : m.awaitPlan = none := by
      rcases given : m.awaitPlan with _ | plan
      · rfl
      · simp [Msg.requeueAllowed_of_started (planned plan given).1] at allowed
    have direct : m.deferredCompletion = false := by
      rw [← Bool.not_eq_true]
      intro handed
      simp [Msg.requeueAllowed_of_admitted (deferred handed)] at allowed
    have passed : Passes (.closing m ret err)
        (sent { m.clone with pendingRequeues := m.pendingRequeues + 1 } (tryDelaySendMsg e
          { m.clone with pendingRequeues := m.pendingRequeues + 1 } answer)) := by
      apply sent_passes
      · intro c
        simp [direct, Msg.clone]
      · intro next ok
        obtain ⟨-, rfl⟩ := tryDelaySendMsg_ok ok
        exact ⟨⟨rfl, rfl⟩, fun _ => rfl⟩
    rw [same]
    constructor
    · intro next member
      rcases mem_cons.mp member with rfl | member
      · intro plan given
        simp [unplanned] at given
      · exact passed.sound next member
    · intro c
      have total := passed.total c
      simp only [Effect.total] at total ⊢
      simpa [direct, holds] using total

theorem reply_passes (sound : Sound (.replying m ret err)) :
    Passes (.replying m ret err) (replyDispatch m ret err) := by
  simp only [replyDispatch]
  split
  · rename_i plan planned
    obtain ⟨direct, reply⟩ := sound plan planned
    exact .moves rfl rfl trivial fun c => by simp [direct, reply]
  · refine .ends rfl fun c => ?_
    cases deferred : m.deferredCompletion <;> simp [deferred]

theorem runPlan_resume (resumed : runPlan plan w = .resume new) :
    w.canceledBefore = none ∧ new.Idle ∧ new.retChan = plan.reply ∧
      new.resumeEntry = some ⟨plan.await, w.value, w.workErr⟩ := by
  simp only [runPlan] at resumed
  split at resumed
  · contradiction
  rename_i going
  split at resumed
  · contradiction
  split at resumed
  · contradiction
  split at resumed
  · contradiction
  split at resumed
  · contradiction
  · cases resumed
    exact ⟨(Option.or_eq_none_iff.mp going).1, ⟨rfl, rfl⟩, rfl, rfl⟩

theorem work_passes (cfg : Config) (e : Engine V) (plan : AwaitPlan) (w : WorkRun V)
    (acted : (Stage.working plan).act cfg e (.work w) = some effect) : Passes (.working plan) effect := by
  simp only [Stage.act, Option.some.injEq] at acted
  subst acted
  split
  · exact .ends rfl fun c => by simp
  rename_i next resumed
  obtain ⟨-, idle, channel, -⟩ := runPlan_resume resumed
  exact trySendMsg_passes cfg e idle _ fun c => by simp [channel]

/-- Every step of a sound activity passes its obligation on or discharges it. -/
theorem Acts.passes (acts : Acts cfg e r stage effect events) (sound : Sound stage) :
    Passes stage effect := by
  cases acts with
  | dispatch m ioStage a acted => exact dispatch_passes cfg e sound ioStage a acted
  | close m ret err answer acted => exact close_passes cfg e sound answer acted
  | reply m ret err => exact reply_passes sound
  | due m => exact .moves rfl rfl sound fun _ => rfl
  | send m answer => exact trySendMsg_passes cfg e sound answer fun _ => rfl
  | flush m => exact .ends rfl fun c => by simp
  | start plan => exact .moves rfl rfl trivial fun _ => rfl
  | work plan w acted => exact work_passes cfg e plan w acted
  | complete handoff reply fences => exact .ends rfl fun c => by simp

/-- The obligations of all live activities on channel `c`. -/
def Engine.owed (e : Engine V) (c : Nat) : Nat := (e.live.map fun a => owes c a.stage).sum

/-- The books of the engine: one value for each admitted channel, sent or owed by an
activity of that request, and nothing for any other channel. -/
structure Balanced (e : Engine V) : Prop where
  sound : ∀ a ∈ e.live, Sound a.stage
  balance : ∀ c, answers c e.replies + e.owed c = if c ∈ e.admitted then 1 else 0
  known : ∀ c ∈ e.admitted, c < e.requests
  owner : ∀ a ∈ e.live, ∀ c, owes c a.stage ≠ 0 → a.request = c
  taken : e.stopped = true → ∀ a ∈ e.live, ∀ m, a.stage ≠ .delayed m

theorem sum_map_eraseIdx (f : α → Nat) {l : List α} (found : l[i]? = some a) :
    ((l.eraseIdx i).map f).sum + f a = (l.map f).sum := by
  obtain ⟨bound, rfl⟩ := List.getElem?_eq_some_iff.mp found
  have permuted := ((getElem_cons_eraseIdx_perm bound).map f).sum_eq
  simp only [map_cons, sum_cons] at permuted
  omega

theorem stop_owes (c : Nat) (stage : Stage V) : owes c stage.stop = owes c stage := by
  cases stage <;> rfl

theorem stop_sound (sound : Sound stage) : Sound stage.stop := by
  cases stage <;> exact sound

theorem stop_taken (stage : Stage V) (m : Msg V) : stage.stop ≠ .delayed m := by
  cases stage <;> nofun

theorem delayed_not_sent : Stage.delayed m ∉ (sent new (trySendMsg cfg e new answer)).stages := by
  intro inside
  cases ok : trySendMsg cfg e new answer with
  | error err => simp [ok, sent] at inside
  | ok stage =>
    obtain ⟨ioStage, rfl⟩ := trySendMsg_ok ok
    simp [ok, sent] at inside

/-- A step of a running engine never puts a message into the delayed queue of a stopped one. -/
theorem Acts.delayed (acts : Acts cfg e r stage effect events)
    (member : Stage.delayed m ∈ effect.stages) : e.stopped = false := by
  cases acts with
  | dispatch before ioStage a acted =>
    simp only [Stage.act, Option.some.injEq] at acted
    subst acted
    split at member <;> simp [Option.map_eq_some_iff] at member
  | close before ret err answer acted =>
    simp only [Stage.act, Option.some.injEq] at acted
    subst acted
    split at member
    · contradiction
    rename_i next _
    cases ok : tryDelaySendMsg e next answer with
    | error err => simp [ok, sent] at member
    | ok stage => exact (tryDelaySendMsg_ok ok).1
  | reply before ret err =>
    simp only [replyDispatch] at member
    split at member <;> simp at member
  | due before running => exact running
  | send before answer => exact absurd member delayed_not_sent
  | work plan w acted =>
    simp only [Stage.act, Option.some.injEq] at acted
    subst acted
    split at member
    · contradiction
    · exact absurd member delayed_not_sent
  | start plan => simp at member
  | flush | complete => contradiction

variable (cfg : Config)

theorem newRequest_balanced (balanced : Balanced e) (m : Msg V) (sync : Bool)
    (answer : Admission) : Balanced (e.step cfg (.request m sync answer)) := by
  obtain ⟨sound, balance, known, owner, taken⟩ := balanced
  simp only [step]
  split
  · exact ⟨sound, balance, fun c member => Nat.lt_succ_of_lt (known c member), owner, taken⟩
  rename_i stage ok
  obtain ⟨ioStage, rfl⟩ := trySendMsg_ok ok
  have unknown : e.requests ∉ e.admitted := fun member => Nat.lt_irrefl _ (known _ member)
  constructor
  case balance =>
    intro c
    have before := balance c
    simp only [owed] at before
    cases sync with
    | false => simpa [owed, newRequest, holds] using before
    | true =>
      by_cases new : c = e.requests
      · subst new
        simp only [unknown, if_false] at before
        simp [owed, newRequest, holds, ← Nat.add_assoc, before]
      · have other : e.requests ≠ c := Ne.symm new
        simpa [owed, newRequest, holds, new, other] using before
  all_goals grind [Sound, Msg.Idle, newRequest, owes, holds]

theorem act_balanced (balanced : Balanced e) (found : e.live[index]? = some activity)
    (acted : activity.stage.act cfg e choice = some effect) (log : List (Event V)) :
    Balanced { e with
      fenced := e.fenced || effect.fences
      awaits := e.awaits + 1
      live := e.live.eraseIdx index ++ effect.stages.map (Activity.mk activity.request)
      replies := e.replies ++ effect.replies
      log := log } := by
  have member := mem_of_getElem? found
  have acts := act_acts activity.request acted
  have passes := acts.passes (balanced.sound activity member)
  have erased : ∀ {a}, a ∈ e.live.eraseIdx index → a ∈ e.live := mem_of_mem_eraseIdx
  obtain ⟨sound, balance, known, owner, taken⟩ := balanced
  constructor
  case balance =>
    intro c
    have before := balance c
    have rest := sum_map_eraseIdx (fun a => owes c a.stage) found
    have total := passes.total c
    simp only [owed, Effect.total] at before total ⊢
    simp only [map_append, sum_append, map_map, answers_append, Function.comp_def] at *
    omega
  case owner =>
    intro a inside c owed
    rcases mem_append.mp inside with old | new
    · exact owner a (erased old) c owed
    obtain ⟨stage, made, rfl⟩ := mem_map.mp new
    apply owner activity member c
    have total := passes.total c
    have part := le_sum_of_mem (mem_map_of_mem (f := fun stage => owes c stage) made)
    simp only [Effect.total] at total
    simp only at owed
    omega
  all_goals grind [passes.sound, acts.delayed]

theorem stop_balanced (balanced : Balanced e) : Balanced (e.step cfg .stop) := by
  constructor
  · intro a inside
    obtain ⟨old, member, rfl⟩ := mem_map.mp inside
    exact stop_sound (balanced.sound old member)
  · intro c
    have same : (e.step cfg .stop).owed c = e.owed c := by
      simp [step, owed, Function.comp_def, stop_owes]
    rw [same]
    exact balanced.balance c
  · exact balanced.known
  · intro a inside c owed
    obtain ⟨old, member, rfl⟩ := mem_map.mp inside
    exact balanced.owner old member c (by simpa [stop_owes] using owed)
  · intro _ a inside m
    obtain ⟨old, _, rfl⟩ := mem_map.mp inside
    exact stop_taken old.stage m

theorem step_balanced (e : Engine V) (input : Input V) (balanced : Balanced e) :
    Balanced (e.step cfg input) := by
  cases input with
  | request m sync answer => exact newRequest_balanced cfg balanced m sync answer
  | act index choice =>
    simp only [step]
    split
    · exact balanced
    rename_i activity found
    split
    · exact balanced
    · rename_i effect acted
      exact act_balanced cfg balanced found acted _
  | fence => exact { balanced with }
  | stop => exact stop_balanced cfg balanced

theorem start_balanced : Balanced ({} : Engine V) := by
  constructor <;> simp [owed]

theorem run_balanced (inputs : List (Input V)) :
    Balanced (run (step cfg) {} inputs) :=
  invariant (step_balanced cfg) start_balanced inputs

/-- Answers of an environment in which nothing goes wrong. -/
def CommitRun.smooth : CommitRun where
  capture := none
  rollback := none
  finalize := none
  abort := none
  publisher := none
  durable := none
  indeterminate := none
  ticket := true
  enqueue := none
  release := none
  ticketErr := none
  afterCommit := none

def Attempt.smooth (run : HandlerRun V) : Attempt V where
  canceled := false
  snapshots := none
  batch := .ok false
  io := none
  fencedNow := false
  canceledNow := false
  load := .loaded
  pending := false
  lock := none
  arguments := none
  run := run
  commit := .smooth
  released := none
  finish := ⟨none, none, none, none⟩
  references := none

def HandlerRun.returning (ret : Option V) : HandlerRun V := ⟨[], false, false, none, .ok ret⟩

def WorkRun.smooth (value : V) (targets : List Int) : WorkRun V where
  canceledBefore := none
  value := value
  workErr := none
  canceledAfter := none
  targets := .ok targets
  normalized := .ok targets
  hasRemote := false
  admission := ⟨none, false⟩

/-- No live activity is stuck: some choice takes it further. -/
theorem act_enabled [Inhabited V] (cfg : Config) (balanced : Balanced e) (live : a ∈ e.live) :
    ∃ choice, (a.stage.act cfg e choice).isSome := by
  have waiting : ∀ m, a.stage = .delayed m → e.stopped = false := by
    intro m delayed
    rw [← Bool.not_eq_true]
    intro stopped
    exact balanced.taken stopped a live m delayed
  cases stage : a.stage with
  | queued m ioStage => exact ⟨.dispatch (.smooth (.returning none)), rfl⟩
  | closing m ret err => exact ⟨.close .accepted, rfl⟩
  | replying m ret err => exact ⟨.reply, rfl⟩
  | delayed m => exact ⟨.due, by simp [Stage.act, waiting m stage]⟩
  | sending m => exact ⟨.send ⟨none, false⟩, rfl⟩
  | flushing m => exact ⟨.flush, rfl⟩
  | awaiting plan => exact ⟨.start, rfl⟩
  | working plan => exact ⟨.work (.smooth default []), rfl⟩
  | completing handoff => exact ⟨.complete none none, rfl⟩

/-- However the handlers, locks, tickets, admissions, the fence and the stop behave, no
channel of an admitted request ever gets a second value, and once no activity of the
request is left it has got one. Until then each of its activities can go on. -/
theorem request_answered_exactly_once [Inhabited V] (cfg : Config) (inputs : List (Input V)) (r : Nat)
    (admitted : r ∈ (run (step cfg) {} inputs).admitted) :
    answers r (run (step cfg) {} inputs).replies ≤ 1 ∧
      ((∀ a ∈ (run (step cfg) {} inputs).live, a.request ≠ r) →
        answers r (run (step cfg) {} inputs).replies = 1) ∧
      ∀ a ∈ (run (step cfg) {} inputs).live,
        ∃ choice, (a.stage.act cfg (run (step cfg) {} inputs) choice).isSome := by
  have balanced := run_balanced cfg inputs
  have balance := balanced.balance r
  rw [if_pos admitted] at balance
  refine ⟨by omega, ?_, fun a live => act_enabled cfg balanced live⟩
  intro gone
  have owed : (run (step cfg) {} inputs).owed r = 0 := by
    apply sum_eq_zero
    intro amount member
    obtain ⟨a, live, rfl⟩ := mem_map.mp member
    by_contra left
    exact gone a live (balanced.owner a live r left)
  omega

/-- A registry with one memory handler. -/
def memoryConfig : Config where
  handlers := fun name => if name = "visit" then some ⟨.memory, false⟩ else none
  remoteHandler := true
  loadedChecker := true
  pipelinedCommitter := false
  pipelinedAllow := none
  completions := false

def visit : Msg Nat := { name := "visit", targets := .single 7, params := [3], retChan := none }

/-- A request that meets a lock timeout, is requeued, and answers on its second dispatch. -/
def requeuedVisit : List (Input Nat) :=
  [.request visit true ⟨none, false⟩,
   .act 0 (.dispatch { Attempt.smooth (.returning none) with lock := some (.timeout false) }),
   .act 0 (.close .accepted), .act 0 .reply, .act 0 .due, .act 0 (.send ⟨none, false⟩),
   .act 0 (.dispatch (.smooth (.returning (some 5)))), .act 0 (.close .accepted), .act 0 .reply]

theorem request_answered_after_requeue :
    0 ∈ (run (step memoryConfig) {} requeuedVisit).admitted ∧
      (∀ a ∈ (run (step memoryConfig) {} requeuedVisit).live, a.request ≠ 0) ∧
      answers 0 (run (step memoryConfig) {} requeuedVisit).replies = 1 := by
  have admitted : 0 ∈ (run (step memoryConfig) {} requeuedVisit).admitted := by decide +kernel
  have gone : (run (step memoryConfig) {} requeuedVisit).live = [] := by rfl
  have none : ∀ a ∈ (run (step memoryConfig) {} requeuedVisit).live, a.request ≠ 0 := by
    simp [gone]
  exact ⟨admitted, none, (request_answered_exactly_once memoryConfig requeuedVisit 0 admitted).2.1 none⟩

end Roost.Nest
