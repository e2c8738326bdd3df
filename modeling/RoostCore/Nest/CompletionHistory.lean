import RoostCore.Nest.CompletionJobs

/-! What the history of the pipeline looks like: the callbacks and the reply of a transaction
come after the release of every node before its own, and a node is released once. -/
namespace Roost.Nest
open Function

namespace TxnStage

/-- The locks have been released or are about to be. -/
def Settled (stage : TxnStage) : Prop := stage ≠ .locking ∧ ¬stage.Holding

/-- The AfterCommit callbacks are behind the transaction, or with its Remote batch. -/
def Called (route : CommitRoute) : TxnStage → Prop
  | .replying | .ended => True
  | .closing _ | .unchaining _ | .uncounting _ => route ≠ .remote
  | _ => False

def Replied (route : CommitRoute) : TxnStage → Prop
  | .closing _ | .unchaining _ | .uncounting _ => route = .async
  | .ended => True
  | _ => False

variable {stage : TxnStage}

theorem Holding.not_settled (holding : stage.Holding) : ¬stage.Settled := fun settled => settled.2 holding

end TxnStage

namespace CompletionEvent

/-- Nothing that the transaction shows is still to come: its node is released, and it has
replied. -/
def Over (older : List CompletionEvent) (u : Nat) (e : Int) : Prop :=
  .released u e ∈ older ∧ ∃ ok, .replied u ok ∈ older

def Permitted (cfg : CompletionConfig) (older : List CompletionEvent) : CompletionEvent → Prop
  | .locked t e => .locked t e ∉ older ∧ .settled t ∉ older
  | .linked t e => .locked t e ∈ older ∧ .unlocked t e ∉ older ∧ .settled t ∉ older
  | .afterCommit t =>
      .settled t ∈ older ∧ .afterCommit t ∉ older ∧ ((cfg.txns t).route ≠ .remote → ∀ ok, .replied t ok ∉ older) ∧
        ∀ e u, [t, u].Sublist (line older e) → Over older u e
  | .replied t _ =>
      .settled t ∈ older ∧ (∀ ok, .replied t ok ∉ older) ∧ (∀ e u, [t, u].Sublist (line older e) → Over older u e) ∧
        ((cfg.txns t).route.Ordinary → ∀ e ∈ (cfg.txns t).es, ∀ u ∈ seen older t e,
          (cfg.txns u).route = .async → Over older u e)
  | .released t e => .linked t e ∈ older ∧ .released t e ∉ older
  | _ => True

def Orderly (cfg : CompletionConfig) : List CompletionEvent → Prop
  | [] => True
  | event :: older => Permitted cfg older event ∧ Orderly cfg older

variable {cfg : CompletionConfig} {event : CompletionEvent} {t u : Nat} {e : Int}
  {history later older : List CompletionEvent}

theorem Orderly.at (orderly : Orderly cfg history) (split : history = later ++ event :: older) :
    Permitted cfg older event := by
  induction later generalizing history with
  | nil =>
    subst split
    exact orderly.1
  | cons first later ih =>
    subst split
    exact ih orderly.2 rfl

theorem Orderly.released_once (orderly : Orderly cfg history) :
    history.count (.released t e) ≤ 1 := by
  induction history with
  | nil => simp
  | cons event older ih =>
    obtain ⟨permitted, orderly⟩ := orderly
    by_cases same : event = .released t e
    · subst same
      simp [List.count_eq_zero.mpr permitted.2]
    · simpa [List.count_cons, same] using ih orderly

end CompletionEvent

open CompletionEvent

namespace Pipeline

/-- What the history tells of the transaction is what its stage shows. -/
structure Told (cfg : CompletionConfig) (w : Pipeline) (t : Nat) : Prop where
  released : ∀ e, .released t e ∈ w.history ↔ w.chains.closed t e = true
  called : .afterCommit t ∈ w.history → (w.progress t).stage.Called (cfg.txns t).route
  replied : (∃ ok, .replied t ok ∈ w.history) ↔ (w.progress t).stage.Replied (cfg.txns t).route
  locked : ∀ e, .locked t e ∈ w.history → w.owner e = some t ∨ (w.progress t).stage ≠ .locking
  held : ∀ e, w.owner e = some t → .locked t e ∈ w.history
  unlocked : ∀ e, .unlocked t e ∈ w.history → (w.progress t).stage.Settled
  settled : .settled t ∈ w.history ↔ (w.progress t).stage.Settled

structure Recorded (cfg : CompletionConfig) (w : Pipeline) : Prop where
  orderly : Orderly cfg w.history
  told : ∀ t, w.Told cfg t
  batches : ∀ t ∈ w.batches, (cfg.txns t).route = .remote ∧ .afterCommit t ∉ w.history ∧
    (w.progress t).stage.Called (cfg.txns t).route

variable {cfg : CompletionConfig} {t u : Nat} {w w' : Pipeline} {e : Int}

section
variable (coherent : w.Coherent cfg) (recorded : w.Recorded cfg)
include coherent recorded

/-- Whoever has waited comes after all that were linked before it. -/
theorem Coherent.earlier_released 
    (awaited : (w.progress t).unawaited = []) (earlier : [t, u].Sublist (line w.history e)) :
    .released u e ∈ w.history := by
  have sound := coherent.sound t
  have node := (sound.inLine e).mp (Chains.mem_of_pair earlier).1
  rw [(recorded.told u).released]
  exact (coherent.chained e).earlier_closed (sound.awaited e node (by simp [awaited])) earlier

/-- Whoever was linked before it has nothing left to show. -/
theorem Coherent.earlier_over (served : w.Served cfg) 
    (awaited : (w.progress t).unawaited = []) (earlier : [t, u].Sublist (line w.history e)) :
    Over w.history u e := by
  have released := coherent.earlier_released recorded awaited earlier
  have told := recorded.told u
  refine ⟨released, told.replied.mpr ?_⟩
  have returned := served.past e t u earlier
  obtain ⟨node, closed⟩ := ((coherent.sound u).closed e).mp ((told.released e).mp released)
  have async := served.handed u
  unfold Returned at returned
  cases stage : (w.progress u).stage <;> simp_all [TxnStage.Replied, Progress.opened]

theorem Coherent.async_over 
    (async : (cfg.txns u).route = .async) (closed : w.chains.closed u e = true) : Over w.history u e := by
  have told := recorded.told u
  refine ⟨(told.released e).mpr closed, told.replied.mpr ?_⟩
  obtain ⟨node, closed⟩ := ((coherent.sound u).closed e).mp closed
  cases stage : (w.progress u).stage <;> simp_all [TxnStage.Replied, Progress.opened]

end

section
variable {p : Progress} {event : Option CompletionEvent} {next : Nat} (stride : Stride cfg w t p event next)
include stride

theorem Stride.settled : p.stage.Settled ↔ (w.progress t).stage.Settled := by
  cases stride <;> grind [TxnStage.Settled, TxnStage.Holding, afterCallbacks]

theorem Stride.told (told : w.Told cfg u) : (w.stride t p event next).Told cfg u := by
  have settled := stride.settled
  obtain ⟨released, called, replied, locked, held, unlocked, was_settled⟩ := told
  cases stride <;> constructor
  all_goals simp only [Pipeline.stride, put, update_apply]
  all_goals grind [TxnStage.Called, TxnStage.Replied, afterCallbacks]

theorem Stride.permitted (coherent : w.Coherent cfg) (served : w.Served cfg) (recorded : w.Recorded cfg)
    (x : CompletionEvent) (shown : x ∈ event) : Permitted cfg w.history x := by
  have sound := coherent.sound t
  have told := recorded.told t
  have earlier (awaited : (w.progress t).unawaited = []) (e : Int) (u : Nat)
      (sub : [t, u].Sublist (CompletionEvent.line w.history e)) : Over w.history u e :=
    coherent.earlier_over recorded served awaited sub
  cases stride with
  | called _ failed stage run =>
    obtain rfl : x = .afterCommit t := by grind
    refine ⟨told.settled.mpr ?_, fun again => ?_, fun _ ok again => ?_, earlier ?_⟩
    · simp [stage, TxnStage.Settled, TxnStage.Holding]
    · simpa [stage, TxnStage.Called] using told.called again
    · simpa [stage, TxnStage.Replied] using told.replied.mp ⟨ok, again⟩
    · simp [Progress.unawaited, stage]
  | replied ok stage =>
    obtain rfl : x = .replied t ok := by grind
    have earlier := earlier (by simp [Progress.unawaited, stage])
    refine ⟨told.settled.mpr ?_, fun ok again => ?_, earlier, fun ordinary e declared u member async => ?_⟩
    · simp [stage, TxnStage.Settled, TxnStage.Holding]
    · simpa [stage, TxnStage.Replied] using told.replied.mp ⟨ok, again⟩
    · rcases sound.checked ordinary e declared (by simp [Progress.unchecked, stage]) with node | closed
      · have behind := (sound.behind e node).sublist
        exact earlier e u ((Chains.pair_sublist_cons.mpr (.inl ⟨rfl, member⟩)).trans behind)
      · exact coherent.async_over recorded async (closed u member async)
  | _ => cases shown

end

section
variable {i : Input} (move : Move cfg w i w')
include move

theorem Move.told (recorded : w.Recorded cfg) (u : Nat) : w'.Told cfg u := by
  have told := recorded.told u
  obtain ⟨released, called, replied, locked, held, unlocked, settled⟩ := recorded.told u
  cases move with
  | stride i stride | postpone t stride => exact { stride.told told with }
  | link i enter | phaseOne t enter =>
    cases enter <;> constructor
    all_goals simp only [Pipeline.link, Pipeline.settle, log, goto, put, update_apply, Chains.link_closed]
    all_goals grind [TxnStage.Holding, TxnStage.Settled, TxnStage.Called, TxnStage.Replied]
  | close t stage | drop t stage =>
    constructor
    all_goals simp only [log, goto, put, update_apply, Chains.close_closed, Chains.drop_closed]
    all_goals grind [TxnStage.Holding, TxnStage.Settled, TxnStage.Called, TxnStage.Replied]
  | pumpForward rejected =>
    cases rejected <;> constructor <;> simp only [put] <;> grind
  | conclude t member =>
    have := (recorded.batches t member).2.2
    constructor
    all_goals simp only [log]
    all_goals grind
  | _ =>
    constructor
    all_goals try simp only [Pipeline.settle, log, goto, put, update_apply]
    all_goals grind [TxnStage.Holding, TxnStage.Settled, TxnStage.Called, TxnStage.Replied]

omit move in
theorem Enter.permitted (enter : Enter cfg w t e stage) (coherent : w.Coherent cfg)
    (recorded : w.Recorded cfg) : Permitted cfg w.history (.linked t e) := by
  have told := recorded.told t
  have holding := enter.holding
  exact ⟨told.held e (enter.owned (coherent.sound t)), fun again => (told.unlocked e again).2 holding,
    fun again => (told.settled.mp again).2 holding⟩

omit move in
theorem Recorded.concluded (recorded : w.Recorded cfg) (coherent : w.Coherent cfg) (served : w.Served cfg)
    (member : t ∈ w.batches) : Permitted cfg w.history (.afterCommit t) := by
  obtain ⟨remote, silent, called⟩ := recorded.batches t member
  have awaited : (w.progress t).unawaited = [] := by
    cases stage : (w.progress t).stage <;> simp_all [Progress.unawaited, TxnStage.Called]
  have settled : (w.progress t).stage.Settled := by
    cases stage : (w.progress t).stage <;> simp_all [TxnStage.Settled, TxnStage.Holding, TxnStage.Called]
  exact ⟨(recorded.told t).settled.mpr settled, silent, fun other => absurd remote other, fun e u sub =>
    coherent.earlier_over recorded served awaited sub⟩

theorem Move.orderly (coherent : w.Coherent cfg) (served : w.Served cfg) (recorded : w.Recorded cfg) :
    Orderly cfg w'.history := by
  have orderly := recorded.orderly
  cases move with
  | lock t e job stage declared free =>
    have told := recorded.told t
    refine ⟨⟨fun again => ?_, fun again => (told.settled.mp again).1 stage⟩, orderly⟩
    simpa [free, stage] using told.locked e again
  | @stride i t p event next stride =>
    cases event with
    | none => exact orderly
    | some x => exact ⟨stride.permitted coherent served recorded x rfl, orderly⟩
  | link i enter => exact ⟨enter.permitted coherent recorded, orderly⟩
  | phaseOne t enter => exact ⟨trivial, enter.permitted coherent recorded, orderly⟩
  | conclude t member => exact ⟨recorded.concluded coherent served member, orderly⟩
  | @close t e rest stage =>
    have sound := coherent.sound t
    obtain ⟨-, node, -⟩ := coherent.releasing (.inl stage)
    refine ⟨⟨mem_line.mp ((sound.inLine e).mpr node), fun again => ?_⟩, orderly⟩
    have closed := ((recorded.told t).released e).mp again
    simp [sound.closed, Progress.opened, stage] at closed
  | settle | submit | count | unlock | uncount => exact ⟨trivial, orderly⟩
  | pumpForward rejected => cases rejected <;> exact orderly
  | _ => exact orderly

theorem Move.batches (recorded : w.Recorded cfg) (member : u ∈ w'.batches) : (cfg.txns u).route = .remote ∧
    .afterCommit u ∉ w'.history ∧ (w'.progress u).stage.Called (cfg.txns u).route := by
  have batches := recorded.batches
  cases move with
  | stride i stride =>
    cases stride <;> simp only [Pipeline.stride, put, update_apply] at *
    all_goals grind [TxnStage.Called, afterCallbacks]
  | postpone t stride stage remote next =>
    have called := (recorded.told t).called
    simp only [Pipeline.stride, put, update_apply] at *
    grind [TxnStage.Called]
  | link i enter | phaseOne t enter =>
    cases enter <;>
      simp only [Pipeline.link, Pipeline.settle, log, goto, put, update_apply] at *
    all_goals grind [TxnStage.Called]
  | pumpForward rejected => cases rejected <;> simp only [put] at * <;> grind
  | _ =>
    try simp only [Pipeline.settle, log, goto, put, update_apply] at *
    grind [TxnStage.Called]

theorem Move.recorded (coherent : w.Coherent cfg) (served : w.Served cfg) (recorded : w.Recorded cfg) :
    w'.Recorded cfg :=
  ⟨move.orderly coherent served recorded, move.told recorded, fun _ => move.batches recorded⟩

end

theorem step_recorded (coherent : w.Coherent cfg) (intact : input ≠ .walFail)
    (served : w.Served cfg) (recorded : w.Recorded cfg) : (w.step cfg input).Recorded cfg :=
  (coherent.step_move intact).recorded coherent served recorded

theorem init_recorded : init.Recorded cfg :=
  ⟨trivial, fun _ => ⟨by simp [init, Chains.empty], nofun, by simp [init, TxnStage.Replied], nofun, nofun,
    nofun, by simp [init, TxnStage.Settled]⟩, nofun⟩

end Pipeline

end Roost.Nest
