import RoostCore.Nest.CompletionMoves

/-! The jobs of the dispatch queue behind the completion chains: whoever enters a chain finds
there only transactions whose jobs have ended. -/
namespace Roost.Nest

open CompletionEvent Function

namespace Pipeline

structure Served (cfg : CompletionConfig) (w : Pipeline) : Prop where
  began : ∀ t, (w.progress t).stage ≠ .locking ∨ (∃ e, w.owner e = some t) → t ∈ w.jobs
  apart : ∀ t ∈ w.jobs, ∀ u ∈ w.jobs, t ≠ u → (∃ e ∈ (cfg.txns t).es, e ∈ (cfg.txns u).es) →
    w.Returned t ∨ w.Returned u
  past : ∀ e t u, [t, u].Sublist (line w.history e) → w.Returned u
  handed : ∀ t, (w.progress t).deferred = true → (cfg.txns t).route = .async

variable {cfg : CompletionConfig} {t u : Nat} {w w' : Pipeline} {e : Int}

theorem Returned.not_holding (returned : w.Returned t) : ¬(w.progress t).stage.Holding := by
  unfold Returned at returned
  intro holding
  cases stage : (w.progress t).stage <;> simp_all [TxnStage.Holding]

section
variable {i : Input} (move : Move cfg w i w')
include move

theorem Move.returned (returned : w.Returned u) : w'.Returned u := by
  unfold Returned at *
  cases move with
  | stride i stride =>
    cases stride <;> simp only [Pipeline.stride, put, update_apply] <;> grind [afterCallbacks]
  | postpone t stride stage remote next =>
    have deferred := stride.deferred
    simp only [Pipeline.stride, put, update_apply]
    grind
  | link i enter | phaseOne t enter =>
    cases enter <;>
      simp only [Pipeline.link, Pipeline.settle, log, goto, put, update_apply] <;> grind
  | pumpForward rejected => cases rejected <;> simp only [put] <;> grind
  | _ =>
    try simp only [Pipeline.settle, log, goto, put, update_apply]
    grind

theorem Move.entered (coherent : w.Coherent cfg) (e : Int) : line w'.history e = line w.history e ∨
    ∃ t, line w'.history e = t :: line w.history e ∧ w.owner e = some t ∧ (w.progress t).stage.Holding := by
  cases move with
  | stride i stride | postpone t stride => exact .inl (stride.line e)
  | @link _ t _ _ enter | @phaseOne t enter =>
    have owned := enter.owned (coherent.sound t)
    have holding := enter.holding
    simp only [Pipeline.link, Pipeline.settle, log, goto, put, line]
    grind
  | pumpForward rejected => cases rejected <;> exact .inl rfl
  | _ => exact .inl rfl

/-- The jobs, and what the three other parts of `Served` say of one of them. -/
theorem Move.jobs (served : w.Served cfg) : (w'.jobs = w.jobs ∨ ∃ t, w'.jobs = t :: w.jobs ∧
      ∀ u ∈ w.jobs, (∃ e ∈ (cfg.txns t).es, e ∈ (cfg.txns u).es) → w.Returned u) ∧
    (∀ u, (w'.progress u).stage ≠ .locking ∨ (∃ e, w'.owner e = some u) → u ∈ w.jobs) := by
  have began := served.began
  cases move with
  | stride i stride | postpone t stride =>
    have started := stride.started
    simp only [Pipeline.stride, put, update_apply]
    grind
  | link i enter | phaseOne t enter =>
    have holding := enter.holding
    simp only [Pipeline.link, Pipeline.settle, log, goto, put, update_apply]
    grind [TxnStage.Holding]
  | pumpForward rejected => cases rejected <;> simp only [put] <;> grind
  | _ =>
    try simp only [Pipeline.settle, log, goto, put, update_apply]
    grind

theorem Move.handed (coherent : w.Coherent cfg) (served : w.Served cfg) (given : (w'.progress u).deferred = true) :
    (cfg.txns u).route = .async := by
  have handed := served.handed
  cases move with
  | stride i stride | postpone t stride =>
    have deferred := stride.deferred
    simp only [Pipeline.stride, put, update_apply] at given
    grind
  | submit t stage =>
    have async := (coherent.sound t).formed.asynchronous (.inr (.inl stage))
    simp only [Pipeline.settle, log, goto, put, update_apply] at given
    grind
  | link | phaseOne =>
    simp only [Pipeline.link, Pipeline.settle, log, goto, put, update_apply] at given
    grind
  | pumpForward rejected => cases rejected <;> simp only [put] at given <;> grind
  | _ =>
    try simp only [Pipeline.settle, log, goto, put, update_apply] at given
    grind

theorem Move.served (coherent : w.Coherent cfg) (served : w.Served cfg) : w'.Served cfg := by
  obtain ⟨jobs, began⟩ := move.jobs served
  have kept (u : Nat) := move.returned (u := u)
  refine ⟨by grind, by grind [served.apart], fun e a b sub => ?_, fun u => move.handed coherent served⟩
  rcases move.entered coherent e with same | ⟨t, entered, owned, holding⟩
  · exact move.returned (served.past e a b (same ▸ sub))
  have nodup := (move.chained coherent e).nodup
  rw [entered] at sub nodup
  rcases Chains.pair_sublist_cons.mp sub with ⟨rfl, member⟩ | sub
  · -- the lock of the entity is held, so the job of the other has ended
    have other : b ≠ a := fun same => (List.nodup_cons.mp nodup).1 (same ▸ member)
    have sound := coherent.sound b
    have node := (sound.inLine e).mp member
    have started : (w.progress b).stage ≠ .locking := by
      intro first
      simp [sound.formed.fresh first] at node
    have shared := ((coherent.sound a).owns e owned).1
    have ended := (served.apart b (served.began b (.inl started)) a (served.began a (.inr ⟨e, owned⟩)) other
      ⟨e, sound.formed.declared e node, shared⟩).resolve_right fun returned => returned.not_holding holding
    exact move.returned ended
  · exact move.returned (served.past e a b sub)

end

theorem step_served (coherent : w.Coherent cfg) (intact : input ≠ .walFail) (served : w.Served cfg) :
    (w.step cfg input).Served cfg :=
  (coherent.step_move intact).served coherent served

theorem init_served : init.Served cfg :=
  ⟨by simp [init], nofun, nofun, nofun⟩

end Pipeline

end Roost.Nest
