import RoostCore.Nest.Replies

/-! An awaited request resumes where it stopped, as long as its resumed segment is not
requeued: the copy that a requeue makes has lost the callback and runs the handler of
the first segment again. -/
namespace Roost.Nest
open List Option Event
open Engine (step)
variable {V : Type}

/-- What may come after what in the log: no handler of a request after one of its Awaits,
and neither work nor callback of an Await twice. -/
def Follows : Event V → Event V → Prop
  | .awaited r _, .ran s (.handler _ _) => r ≠ s
  | .ran r (.callback x), .ran s (.callback y) => r = s → x.await ≠ y.await
  | .worked r x, .worked s y => r = s → x.await ≠ y.await
  | _, _ => True

def NoAwait (log : List (Event V)) (r : Nat) : Prop := ∀ k, awaited r k ∉ log

def Unworked (log : List (Event V)) (r k : Nat) : Prop := ∀ x, x.await = k → worked r x ∉ log

def Unresumed (log : List (Event V)) (r k : Nat) : Prop :=
  ∀ x, x.await = k → ran r (.callback x) ∉ log

/-- A message that will run: the first segment of a request without an Await, or the
segment whose work is done and whose callback has not run. -/
def Ready (log : List (Event V)) (r : Nat) (m : Msg V) : Prop :=
  match m.resumeEntry with
  | none => NoAwait log r
  | some x => worked r x ∈ log ∧ Unresumed log r x.await

def planned : Stage V → Option AwaitPlan
  | .closing m _ _ | .replying m _ _ => m.awaitPlan
  | .awaiting plan | .working plan => some plan
  | _ => none

/-- Stages from which handler code of the request can still run. -/
def leads : Stage V → Bool
  | .replying m _ _ => m.awaitPlan.isSome
  | .completing _ => false
  | _ => true

def Carries (log : List (Event V)) (r : Nat) : Stage V → Prop
  | .queued m _ | .delayed m | .sending m | .flushing m => Ready log r m
  | .closing m _ _ => (m.resumeEntry = none → NoAwait log r) ∧
      ∀ plan, m.awaitPlan = some plan → Unworked log r plan.await ∧ Unresumed log r plan.await
  | .replying m _ _ =>
      ∀ plan, m.awaitPlan = some plan → Unworked log r plan.await ∧ Unresumed log r plan.await
  | .awaiting plan | .working plan => Unworked log r plan.await ∧ Unresumed log r plan.await
  | .completing _ => True

def Event.request : Event V → Nat
  | .ran r _ | .awaited r _ | .worked r _ => r

variable {r : Nat}

/-- Events of other requests do not matter to what a stage carries. -/
theorem Carries.append_other {log events : List (Event V)} (other : ∀ ev ∈ events, ev.request ≠ r)
    (carries : Carries log r stage) : Carries (log ++ events) r stage := by
  have unawaited : NoAwait log r → NoAwait (log ++ events) r := by grind [NoAwait, request]
  have both : ∀ {k}, Unworked log r k ∧ Unresumed log r k →
      Unworked (log ++ events) r k ∧ Unresumed (log ++ events) r k := by grind [Unworked, Unresumed, request]
  have ready : ∀ {m : Msg V}, Ready log r m → Ready (log ++ events) r m := by
    intro m ready
    simp only [Ready] at ready ⊢
    split
    · rename_i first
      rw [first] at ready
      exact unawaited ready
    · rename_i x resumed
      rw [resumed] at ready
      exact ⟨mem_append_left _ ready.1, by grind [Unresumed, request]⟩
  cases stage with
  | queued | delayed | sending | flushing => exact ready carries
  | closing m ret err => exact ⟨fun first => unawaited (carries.1 first), fun plan given => both (carries.2 plan given)⟩
  | replying m ret err => exact fun plan given => both (carries plan given)
  | awaiting | working => exact both carries
  | completing handoff => trivial

/-- What the step of a leading activity does to the log and to the stages of its request. -/
structure Continues (awaits : Nat) (log : List (Event V)) (r : Nat) (effect : Effect V)
    (events : List (Event V)) : Prop where
  own : ∀ ev ∈ events, ev.request = r
  few : events.length ≤ 1
  follows : ∀ old ∈ log, ∀ ev ∈ events, Follows old ev
  worked : ∀ x, ran r (.callback x) ∈ events → worked r x ∈ log
  carried : ∀ next ∈ effect.stages, leads next = true → Carries (log ++ events) r next
  single : effect.stages.countP leads ≤ 1
  issued : ∀ x, Event.worked r x ∈ events → x.await ≤ awaits
  numbered : ∀ next ∈ effect.stages, ∀ plan, planned next = some plan → plan.await ≤ awaits

variable {log : List (Event V)} {effect : Effect V}

theorem Continues.silent (carried : ∀ next ∈ effect.stages, leads next = true → Carries log r next)
    (single : effect.stages.countP leads ≤ 1)
    (numbered : ∀ next ∈ effect.stages, ∀ plan, planned next = some plan → plan.await ≤ awaits) :
    Continues awaits log r effect [] := by
  constructor
  · simp
  · simp
  · simp
  · simp
  · simpa using carried
  · exact single
  · simp
  · exact numbered

theorem Continues.ends (done : effect.stages = []) : Continues awaits log r effect [] := by
  apply Continues.silent <;> simp [done]

theorem Continues.moves (one : effect.stages = [new]) (carries : Carries log r new)
    (numbered : ∀ plan, planned new = some plan → plan.await ≤ awaits) :
    Continues awaits log r effect [] := by
  apply Continues.silent
  · intro stage member _
    rw [one, mem_singleton] at member
    exact member ▸ carries
  · rw [one]
    exact countP_le_length
  · intro stage member
    rw [one, mem_singleton] at member
    exact member ▸ numbered

/-- A message is sent or its request is answered; either way the log stays as it is. -/
theorem sent_continues
    (accepted : ∀ next, answer = .ok next → Carries log r next ∧ planned next = none) :
    Continues awaits log r (sent m answer) [] := by
  cases answer with
  | error err => exact .ends rfl
  | ok next =>
    obtain ⟨carries, unplanned⟩ := accepted next rfl
    exact .moves rfl carries (by simp [unplanned])

section steps
variable {cfg : Config} {e : Engine V} {log : List (Event V)} {r : Nat} {effect : Effect V}

theorem NoAwait.append_ran (none : NoAwait log r) (codes : List (Ran V)) :
    NoAwait (log ++ codes.map (ran r)) r := by
  intro k member
  rcases mem_append.mp member with old | new
  · exact none k old
  · simp at new

theorem dispatch_continues (idle : m.Idle) (ready : Ready log r m)
    (issued : ∀ s x, worked s x ∈ log → x.await < e.awaits)
    (matched : ∀ s x, ran s (.callback x) ∈ log → worked s x ∈ log)
    (acted : (Stage.queued m ioStage).act cfg e (.dispatch a) = some effect) :
    Continues e.awaits log r effect ((Stage.queued m ioStage).events cfg e r (.dispatch a)) := by
  obtain ⟨done, reroutes⟩ := dispatchNest_dispatched cfg e.fenced e.awaits ioStage idle a
  simp only [Stage.act, some.injEq] at acted
  simp only [Stage.events]
  generalize dispatchNest cfg e.fenced e.awaits ioStage m a = out at done reroutes acted
  have resumes := done.ended.resumes
  subst acted
  have added : ∀ ev ∈ out.logic.ran.map (ran r), (∀ old ∈ log, Follows old ev) ∧
      ∀ x, ev = .ran r (.callback x) → worked r x ∈ log := by
    rcases done.ran with none | ⟨first, ran⟩ | ⟨x, resumed, ran⟩
    · simp [none]
    · simp only [Ready, first] at ready
      rw [ran]
      intro ev member
      obtain rfl := mem_singleton.mp member
      refine ⟨?_, by simp⟩
      rintro (⟨s, code⟩ | ⟨s, k⟩ | ⟨s, y⟩) old
      · cases code <;> trivial
      · intro same
        exact ready k (same ▸ old)
      · trivial
    · simp only [Ready, resumed] at ready
      rw [ran]
      intro ev member
      obtain rfl := mem_singleton.mp member
      constructor
      · rintro (⟨s, code⟩ | ⟨s, k⟩ | ⟨s, y⟩) old
        · cases code with
          | handler name params => trivial
          | callback y =>
            intro same equal
            exact ready.2 y equal (same ▸ old)
        · trivial
        · trivial
      · intro y same
        cases same
        exact ready.1
  have own : ∀ ev ∈ out.logic.ran.map (ran r), ev.request = r := by
    intro ev member
    obtain ⟨code, -, rfl⟩ := mem_map.mp member
    rfl
  have few : (out.logic.ran.map (ran r)).length ≤ 1 := by
    rcases done.ran with ran | ⟨-, ran⟩ | ⟨x, -, ran⟩ <;> simp [ran]
  refine ⟨own, few, fun old member ev new => (added ev new).1 old member,
    fun x new => (added _ new).2 x rfl, ?_, ?_, by simp, ?_⟩
  · split
    · -- rerouted: nothing ran, and the message is as ready as before
      rename_i rerouted
      obtain ⟨quiet, -, -⟩ := done.cold (reroutes rerouted)
      intro next member _
      obtain rfl := mem_singleton.mp member
      simpa [Carries, Ready, quiet, resumes] using ready
    · intro next member leading
      rcases mem_cons.mp member with rfl | member
      · refine ⟨fun first => ?_, fun plan given => ?_⟩
        · rw [resumes] at first
          simp only [Ready, first] at ready
          exact ready.append_ran out.logic.ran
        · -- the plan has a number that no earlier Await was given
          obtain ⟨-, -, -, named⟩ := done.ended.plan plan given
          have fresh : ∀ {x : Resume V}, x.await = plan.await → x.await < e.awaits → False := by omega
          refine ⟨fun x same inside => ?_, fun x same inside => ?_⟩
          · rcases mem_append.mp inside with old | new
            · exact fresh same (issued r x old)
            · simp at new
          · rcases mem_append.mp inside with old | new
            · exact fresh same (issued r x (matched r x old))
            · exact fresh same (issued r x ((added _ new).2 x rfl))
      · obtain ⟨handoff, -, rfl⟩ := by simpa using member
        contradiction
  · split
    · exact countP_le_length
    · cases out.logic.tx.handoff <;> simp [countP_cons, leads]
  · intro next member plan given
    split at member
    · obtain rfl := mem_singleton.mp member
      contradiction
    · rcases mem_cons.mp member with rfl | member
      · exact (done.ended.plan plan given).2.2.2.le
      · obtain ⟨handoff, -, rfl⟩ := by simpa using member
        contradiction

/-- A closing step that requeues the message of a resumed segment. -/
def requeuesResumed (stage : Stage V) : Bool :=
  match stage with
  | .closing m _ failure =>
    let err := if errorsIs failure .entityGroupTransitionScheduled then none else failure
    m.resumeEntry.isSome && (m.requeueAllowed err && isRequeueableDispatchError err &&
      decide (m.pendingRequeues < entityGroupDispatchRequeueMax))
  | _ => false

theorem requeued_isSome (m : Msg V) (failure : Option Err) :
    (requeueOrAnnotateNotRequeued m failure).requeued.isSome =
      let err := if errorsIs failure .entityGroupTransitionScheduled then none else failure
      m.requeueAllowed err && isRequeueableDispatchError err &&
        decide (m.pendingRequeues < entityGroupDispatchRequeueMax) := by
  simp only [requeueOrAnnotateNotRequeued, requeueNestDispatch]
  by_cases spent : m.pendingRequeues ≥ entityGroupDispatchRequeueMax
  · simp only [spent, if_true, Nat.not_lt.mpr spent, decide_false, Bool.and_false]
    split_ifs <;> rfl
  · simp only [spent, if_false, Nat.not_le.mp spent, decide_true, Bool.and_true]
    split_ifs <;> simp_all

theorem close_continues (sound : Sound (.closing m ret err))
    (carries : Carries log r (.closing m ret err))
    (kept : requeuesResumed (.closing m ret err) = false)
    (numbered : ∀ plan, m.awaitPlan = some plan → plan.await ≤ e.awaits)
    (acted : (Stage.closing m ret err).act cfg e (.close answer) = some effect) :
    Continues e.awaits log r effect [] := by
  obtain ⟨first, plans⟩ := carries
  simp only [Stage.act, some.injEq] at acted
  simp only [requeuesResumed, ← requeued_isSome] at kept
  subst acted
  rcases requeueOrAnnotateNotRequeued_cases m err with ⟨seen, same⟩ | ⟨⟨seen, allowed⟩, same⟩
  · rw [same]
    exact .moves rfl plans numbered
  rw [same] at kept ⊢
  have original : m.resumeEntry = none := by simpa using kept
  have unplanned : m.awaitPlan = none := by
    rcases given : m.awaitPlan with _ | plan
    · rfl
    · simp [Msg.requeueAllowed_of_started (sound.1 plan given).1] at allowed
  have copied : Continues e.awaits log r (sent { m.clone with pendingRequeues := m.pendingRequeues + 1 }
      (tryDelaySendMsg e { m.clone with pendingRequeues := m.pendingRequeues + 1 } answer)) [] := by
    apply sent_continues
    intro next ok
    obtain ⟨-, rfl⟩ := tryDelaySendMsg_ok ok
    exact ⟨first original, rfl⟩
  have idle : leads (Stage.replying { m with retChan := none } ret none) = false := by simp [leads, unplanned]
  apply Continues.silent
  · intro next member leading
    rcases mem_cons.mp member with rfl | member
    · simp [idle] at leading
    · simpa using copied.carried next member leading
  · simpa [countP_cons, idle] using copied.single
  · intro next member plan given
    rcases mem_cons.mp member with rfl | member
    · simp [planned, unplanned] at given
    · exact copied.numbered next member plan given

theorem reply_continues (carries : Carries log r (.replying m ret err))
    (numbered : ∀ plan, m.awaitPlan = some plan → plan.await ≤ e.awaits) :
    Continues e.awaits log r (replyDispatch m ret err) ((Stage.replying m ret err).events cfg e r .reply) := by
  cases given : m.awaitPlan with
  | none => cases err <;> simpa [replyDispatch, Stage.events, given] using .ends rfl
  | some plan =>
    cases err with
    | some err => simpa [replyDispatch, Stage.events, given] using .ends rfl
    | none =>
      obtain ⟨unworked, unresumed⟩ := carries plan given
      simp only [replyDispatch, Stage.events, given, map_some, toList_some]
      constructor
      · simp [request]
      · simp
      · intro old _ ev new
        obtain rfl := mem_singleton.mp new
        rcases old with ⟨s, code⟩ | ⟨s, k⟩ | ⟨s, y⟩
        · cases code <;> trivial
        · trivial
        · trivial
      · simp
      · intro next member _
        obtain rfl := mem_singleton.mp member
        refine ⟨fun x same inside => ?_, fun x same inside => ?_⟩
        · exact unworked x same (by simpa using inside)
        · exact unresumed x same (by simpa using inside)
      · exact countP_le_length
      · simp
      · intro next member other same
        obtain rfl := mem_singleton.mp member
        cases same
        exact numbered plan given

theorem work_continues (carries : Carries log r (.working plan)) (numbered : plan.await ≤ e.awaits)
    (acted : (Stage.working plan).act cfg e (.work w) = some effect) :
    Continues e.awaits log r effect ((Stage.working plan).events cfg e r (.work w)) := by
  obtain ⟨unworked, unresumed⟩ := carries
  simp only [Stage.act, some.injEq] at acted
  subst acted
  have follows : ∀ old ∈ log, Follows old (.worked r ⟨plan.await, w.value, w.workErr⟩) := by
    rintro (⟨s, code⟩ | ⟨s, k⟩ | ⟨s, y⟩) old
    · cases code <;> trivial
    · trivial
    · intro same equal
      exact unworked y equal (same ▸ old)
  cases ended : runPlan plan w with
  | finish err =>
    simp only [Stage.events]
    split
    · exact .ends rfl
    constructor
    · simp [request]
    · simp
    · intro old member ev new
      obtain rfl := mem_singleton.mp new
      exact follows old member
    · simp
    · simp
    · simp
    · simpa using numbered
    · simp
  | resume next =>
    obtain ⟨going, -, -, resumed⟩ := runPlan_resume ended
    simp only [Stage.events, going, isSome_none, Bool.false_eq_true, if_false]
    have sending : Continues e.awaits (log ++ [.worked r ⟨plan.await, w.value, w.workErr⟩]) r
        (sent next (trySendMsg cfg e next w.admission)) [] := by
      apply sent_continues
      intro stage ok
      obtain ⟨ioStage, rfl⟩ := trySendMsg_ok ok
      simp only [Carries, Ready, resumed]
      refine ⟨⟨by simp, fun x same inside => ?_⟩, rfl⟩
      exact unresumed x same (by simpa using inside)
    constructor
    · simp [request]
    · simp
    · intro old member ev new
      obtain rfl := mem_singleton.mp new
      exact follows old member
    · simp
    · simpa using sending.carried
    · exact sending.single
    · simpa using numbered
    · exact sending.numbered

/-- What every step of a leading activity does, unless it requeues a resumed segment. -/
theorem Acts.continues (acts : Acts cfg e r stage effect events) (sound : Sound stage)
    (carries : Carries log r stage) (issued : ∀ s x, worked s x ∈ log → x.await < e.awaits)
    (matched : ∀ s x, ran s (.callback x) ∈ log → worked s x ∈ log)
    (kept : requeuesResumed stage = false)
    (numbered : ∀ plan, planned stage = some plan → plan.await ≤ e.awaits) :
    Continues e.awaits log r effect events := by
  cases acts with
  | dispatch m ioStage a acted => exact dispatch_continues sound carries issued matched acted
  | close m ret err answer acted => exact close_continues sound carries kept numbered acted
  | reply m ret err => exact reply_continues carries numbered
  | due m => exact .moves rfl carries nofun
  | send m answer =>
    apply sent_continues
    intro next ok
    obtain ⟨ioStage, rfl⟩ := trySendMsg_ok ok
    exact ⟨carries, rfl⟩
  | flush m => exact .ends rfl
  | start plan => exact .moves rfl carries numbered
  | work plan w acted => exact work_continues carries (numbered plan rfl) acted
  | complete handoff reply fences => exact .ends rfl

/-- An activity that does not lead logs nothing and ends with its step. -/
theorem Acts.trailing (acts : Acts cfg e r stage effect events) (trailing : leads stage = false) :
    effect.stages = [] ∧ events = [] := by
  cases acts with
  | reply m ret err =>
    have unplanned : m.awaitPlan = none := by simpa [leads] using trailing
    cases err <;> simp [replyDispatch, Stage.events, unplanned]
  | complete => exact ⟨rfl, rfl⟩
  | _ => contradiction

end steps

/-- The log of an engine in which no resumed segment was requeued. -/
structure Resuming (e : Engine V) : Prop where
  ordered : e.log.Pairwise Follows
  matched : ∀ r x, ran r (.callback x) ∈ e.log → worked r x ∈ e.log
  issued : ∀ r x, worked r x ∈ e.log → x.await < e.awaits
  known : ∀ ev ∈ e.log, ev.request < e.requests
  carried : ∀ a ∈ e.live, leads a.stage = true → Carries e.log a.request a.stage
  single : ∀ r, e.live.countP (fun a => a.request == r && leads a.stage) ≤ 1
  numbered : ∀ a ∈ e.live, ∀ plan, planned a.stage = some plan → plan.await < e.awaits
  named : ∀ a ∈ e.live, a.request < e.requests

theorem countP_eraseIdx (p : α → Bool) {l : List α} {a : α} (found : l[i]? = some a) :
    (l.eraseIdx i).countP p + (if p a then 1 else 0) = l.countP p := by
  obtain ⟨bound, rfl⟩ := List.getElem?_eq_some_iff.mp found
  rw [← (getElem_cons_eraseIdx_perm bound).countP_eq p, countP_cons]

theorem pairwise_of_length_le_one {R : α → α → Prop} {l : List α} (few : l.length ≤ 1) :
    l.Pairwise R := by
  rcases l with _ | ⟨a, _ | ⟨b, rest⟩⟩
  · exact .nil
  · exact pairwise_singleton R a
  · simp at few

variable {e : Engine V}

theorem Resuming.apart (resuming : Resuming e) {index : Nat}
    (found : e.live[index]? = some activity) (leading : leads activity.stage = true)
    (member : other ∈ e.live.eraseIdx index) (led : leads other.stage = true) :
    other.request ≠ activity.request := by
  intro same
  have all := countP_eraseIdx (fun a => a.request == activity.request && leads a.stage) found
  have one := resuming.single activity.request
  have more : 0 < (e.live.eraseIdx index).countP (fun a => a.request == activity.request && leads a.stage) :=
    countP_pos_iff.mpr ⟨other, member, by simp [same, led]⟩
  simp only [leading, beq_self_eq_true, Bool.and_self, if_true] at all
  omega

variable (cfg : Config)

theorem act_resuming (balanced : Balanced e) (resuming : Resuming e)
    {activity : Activity V} (found : e.live[index]? = some activity) {choice : Choice V}
    (kept : requeuesResumed activity.stage = false)
    (acted : activity.stage.act cfg e choice = some effect) (fenced : Bool)
    (replies : List (Nat × Reply V)) : Resuming { e with
      fenced
      awaits := e.awaits + 1
      live := e.live.eraseIdx index ++ effect.stages.map (Activity.mk activity.request)
      replies
      log := e.log ++ activity.stage.events cfg e activity.request choice } := by
  have member := mem_of_getElem? found
  have acts := act_acts activity.request acted
  have erased : ∀ {a}, a ∈ e.live.eraseIdx index → a ∈ e.live := mem_of_mem_eraseIdx
  have counted := fun r => countP_eraseIdx (fun a => a.request == r && leads a.stage) found
  cases leading : leads activity.stage with
  | false =>
    obtain ⟨ends, silent⟩ := acts.trailing leading
    simp only [ends, silent, map_nil, append_nil]
    have fewer (r : Nat) : (e.live.eraseIdx index).countP (fun a => a.request == r && leads a.stage) ≤ 1 :=
      (Nat.le_add_right _ _).trans ((counted r).trans_le (resuming.single r))
    obtain ⟨ordered, matched, issued, known, carried, -, numbered, named⟩ := resuming
    constructor
    case single => exact fewer
    all_goals grind
  | true =>
    have continues := acts.continues (balanced.sound activity member) (resuming.carried activity member leading)
      resuming.issued resuming.matched kept (fun plan given => (resuming.numbered activity member plan given).le)
    have apart : ∀ other ∈ e.live.eraseIdx index, leads other.stage = true →
        other.request ≠ activity.request := fun other => resuming.apart found leading
    generalize activity.stage.events cfg e activity.request choice = events at continues
    obtain ⟨ordered, matched, issued, known, carried, single, numbered, named⟩ := resuming
    constructor
    case ordered =>
      exact pairwise_append.mpr ⟨ordered, pairwise_of_length_le_one continues.few, continues.follows⟩
    case carried =>
      intro a inside led
      rcases mem_append.mp inside with old | new
      · exact (carried a (erased old) led).append_other
          fun ev new same => apart a old led (same.symm.trans (continues.own ev new))
      · obtain ⟨stage, made, rfl⟩ := mem_map.mp new
        exact continues.carried stage made led
    case single =>
      intro r
      have one := single r
      have all := counted r
      have few : effect.stages.countP (fun stage => leads stage) ≤ 1 := continues.single
      rw [countP_append, countP_map]
      by_cases same : activity.request = r
      · subst same
        simp only [leading, beq_self_eq_true, Bool.and_self, if_true] at all
        simp only [Function.comp_def, beq_self_eq_true, Bool.true_and]
        omega
      · have different : (activity.request == r) = false := by simpa using same
        simp only [Function.comp_def, different, Bool.false_and, countP_false] at all ⊢
        simpa using all.trans_le one
    case issued =>
      intro r x logged
      rcases mem_append.mp logged with old | new
      · exact Nat.lt_succ_of_lt (issued r x old)
      · obtain rfl := continues.own _ new
        exact Nat.lt_succ_of_le (continues.issued x new)
    case numbered =>
      intro a inside plan given
      rcases mem_append.mp inside with old | new
      · exact Nat.lt_succ_of_lt (numbered a (erased old) plan given)
      · obtain ⟨stage, made, rfl⟩ := mem_map.mp new
        exact Nat.lt_succ_of_le (continues.numbered stage made plan given)
    all_goals grind [continues.own, continues.worked, request]

theorem newRequest_resuming (resuming : Resuming e) (m : Msg V) (sync : Bool)
    (answer : Admission) : Resuming (e.step cfg (.request m sync answer)) := by
  obtain ⟨ordered, matched, issued, known, carried, single, numbered, named⟩ := resuming
  simp only [step]
  split
  · exact ⟨ordered, matched, issued, fun ev logged => Nat.lt_succ_of_lt (known ev logged), carried, single, numbered,
      fun a live => Nat.lt_succ_of_lt (named a live)⟩
  rename_i stage ok
  obtain ⟨ioStage, rfl⟩ := trySendMsg_ok ok
  constructor
  case single =>
    intro r
    rw [countP_append]
    by_cases same : e.requests = r
    · subst same
      have unused : e.live.countP (fun a => a.request == e.requests && leads a.stage) = 0 := by
        rw [countP_eq_zero]
        intro a live
        simp [(named a live).ne]
      rw [unused, Nat.zero_add]
      exact countP_le_length
    · simpa [same] using single r
  all_goals grind [planned, Carries, Ready, newRequest, NoAwait, request]

theorem leads_stop (stage : Stage V) : leads stage.stop = leads stage := by
  cases stage <;> rfl

theorem planned_stop (stage : Stage V) : planned stage.stop = planned stage := by
  cases stage <;> rfl

theorem Carries.stop (carries : Carries log r stage) : Carries log r stage.stop := by
  cases stage <;> exact carries

theorem stop_resuming (resuming : Resuming e) : Resuming (e.step cfg .stop) := by
  refine { resuming with carried := ?_, single := ?_, numbered := ?_, named := ?_ }
  · intro a inside led
    obtain ⟨old, live, rfl⟩ := mem_map.mp inside
    exact (resuming.carried old live ((leads_stop old.stage).symm.trans led)).stop
  · intro r
    simpa [step, countP_map, Function.comp_def, leads_stop] using resuming.single r
  · intro a inside plan given
    obtain ⟨old, live, rfl⟩ := mem_map.mp inside
    exact resuming.numbered old live plan ((planned_stop old.stage).symm.trans given)
  · intro a inside
    obtain ⟨old, live, rfl⟩ := mem_map.mp inside
    exact resuming.named old live

/-- The condition under which an Await is safe: no step of the run requeues a resumed segment. -/
def KeepsResumed (e : Engine V) : Input V → Prop
  | .act index _ => ∀ a, e.live[index]? = some a → requeuesResumed a.stage = false
  | _ => True

theorem step_resuming (e : Engine V) (input : Input V) (kept : KeepsResumed e input)
    (both : Balanced e ∧ Resuming e) : Balanced (e.step cfg input) ∧ Resuming (e.step cfg input) := by
  obtain ⟨balanced, resuming⟩ := both
  refine ⟨step_balanced cfg e input balanced, ?_⟩
  cases input with
  | request m sync answer => exact newRequest_resuming cfg resuming m sync answer
  | act index choice =>
    simp only [step]
    split
    · exact resuming
    rename_i activity found
    split
    · exact resuming
    · rename_i effect acted
      exact act_resuming cfg balanced resuming found (kept activity found) acted _ _
  | fence => exact { resuming with }
  | stop => exact stop_resuming cfg resuming

theorem start_resuming : Resuming ({} : Engine V) := by
  constructor <;> simp

theorem run_resuming (kept : Along (step cfg) KeepsResumed {} inputs) :
    Resuming (run (step cfg) {} inputs) :=
  (invariant_along (step_resuming cfg) ⟨start_balanced, start_resuming⟩ kept).2

def isCallback (r k : Nat) : Event V → Bool
  | .ran s (.callback x) => s == r && x.await == k
  | _ => false

theorem isCallback_iff :
    isCallback r k ev = true ↔ ∃ x, ev = .ran r (.callback x) ∧ x.await = k := by
  rcases ev with ⟨s, _ | x⟩ | ⟨s, k⟩ | ⟨s, x⟩ <;> simp [isCallback]

theorem countP_le_one {p : α → Bool} {l : List α}
    (apart : l.Pairwise fun a b => p a = true → p b = true → False) : l.countP p ≤ 1 := by
  induction l with
  | nil => simp
  | cons a rest ih =>
    obtain ⟨first, others⟩ := pairwise_cons.mp apart
    cases here : p a with
    | false => simpa [countP_cons, here] using ih others
    | true =>
      have none : rest.countP p = 0 := countP_eq_zero.mpr fun b member => first b member here
      simp [here, none]

theorem Resuming.callback_once (resuming : Resuming e) (r k : Nat) :
    e.log.countP (isCallback r k) ≤ 1 := by
  apply countP_le_one
  refine resuming.ordered.imp ?_
  intro first second follows isFirst isSecond
  obtain ⟨x, rfl, named⟩ := isCallback_iff.mp isFirst
  obtain ⟨y, rfl, same⟩ := isCallback_iff.mp isSecond
  exact follows rfl (named.trans same.symm)

theorem Resuming.worked_once (resuming : Resuming e) (first : worked r x ∈ e.log)
    (second : worked r y ∈ e.log) (same : y.await = x.await) : y = x := by
  obtain ⟨i, iBound, atI⟩ := getElem_of_mem first
  obtain ⟨j, jBound, atJ⟩ := getElem_of_mem second
  have ordered := pairwise_iff_getElem.mp resuming.ordered
  rcases Nat.lt_trichotomy i j with less | rfl | more
  · have follows := ordered i j iBound jBound less
    rw [atI, atJ] at follows
    exact absurd same.symm (follows rfl)
  · rw [atI] at atJ
    cases atJ
    rfl
  · have follows := ordered j i jBound iBound more
    rw [atI, atJ] at follows
    exact absurd same (follows rfl)

/-- After the segment that called Await no registered handler runs for the request. Each
callback runs at most once, with the one value and error that its work produced. -/
theorem awaited_request_resumes (cfg : Config) (inputs : List (Input V))
    (kept : Along (step cfg) KeepsResumed {} inputs) :
    (∀ r k before after, (run (step cfg) {} inputs).log = before ++ .awaited r k :: after →
        ∀ name params, ran r (.handler name params) ∉ after) ∧
      (∀ r k, (run (step cfg) {} inputs).log.countP (isCallback r k) ≤ 1) ∧
      ∀ r x, ran r (.callback x) ∈ (run (step cfg) {} inputs).log →
        worked r x ∈ (run (step cfg) {} inputs).log ∧
          ∀ y, worked r y ∈ (run (step cfg) {} inputs).log → y.await = x.await → y = x := by
  have resuming := run_resuming cfg kept
  refine ⟨?_, resuming.callback_once, ?_⟩
  · intro r k before after split name params member
    have ordered := resuming.ordered
    rw [split] at ordered
    have later := (pairwise_cons.mp (pairwise_append.mp ordered).2.1).1
    exact later _ member rfl
  · intro r x logged
    have worked := resuming.matched r x logged
    exact ⟨worked, fun y other same => resuming.worked_once worked other same⟩

/-- The handler of the first segment: it awaits one value for its one target. -/
def awaitingVisit : HandlerRun Nat := ⟨[⟨1, true, false, none⟩], false, false, none, .ok none⟩

/-- A visit that awaits, up to the point where its resumed segment is queued. -/
def suspendedVisit : List (Input Nat) :=
  [.request visit true ⟨none, false⟩, .act 0 (.dispatch (.smooth awaitingVisit)), .act 0 (.close .accepted),
   .act 0 .reply, .act 0 .start, .act 0 (.work (.smooth 9 [7]))]

def resumedVisit : List (Input Nat) :=
  suspendedVisit ++ [.act 0 (.dispatch (.smooth (.returning none))), .act 0 (.close .accepted), .act 0 .reply]

/-- One lock timeout of the resumed segment and its automatic requeue. -/
def requeuedResumption : List (Input Nat) :=
  suspendedVisit ++
    [.act 0 (.dispatch { Attempt.smooth (.returning none) with lock := some (.timeout false) }),
     .act 0 (.close .accepted), .act 0 .reply, .act 0 .due, .act 0 (.send ⟨none, false⟩),
     .act 0 (.dispatch (.smooth (.returning (some 5)))), .act 0 (.close .accepted), .act 0 .reply]

theorem requeued_resumption_runs_handler_again :
    (run (step memoryConfig) {} requeuedResumption).log =
      [.ran 0 (.handler "visit" [3]), .awaited 0 0, .worked 0 ⟨0, 9, none⟩, .ran 0 (.handler "visit" [])] ∧
      (run (step memoryConfig) {} requeuedResumption).replies = [(0, .value (some 5))] := by
  constructor <;> decide +kernel

theorem awaited_request_resumes_visit :
    Along (step memoryConfig) KeepsResumed {} resumedVisit ∧
      ran 0 (.callback ⟨0, 9, none⟩) ∈ (run (step memoryConfig) {} resumedVisit).log ∧
      (run (step memoryConfig) {} resumedVisit).log.countP (isCallback 0 0) ≤ 1 := by
  have kept : Along (step memoryConfig) KeepsResumed {} resumedVisit := by
    refine ⟨trivial, ?_, ?_, ?_, ?_, ?_, ?_, ?_, ?_, trivial⟩ <;> rintro a ⟨⟩ <;> rfl
  exact ⟨kept, by decide +kernel, (awaited_request_resumes memoryConfig resumedVisit kept).2.1 0 0⟩

end Roost.Nest
