import RoostCore.Nest.CompletionSteps

/-! Every step of the pipeline keeps the transactions coherent. -/
namespace Roost.Nest
open Chains

open CompletionEvent List Function

/-- An asynchronous node that is not closed is counted. -/
theorem Progress.counting_of_opened {txn : Txn} {p : Progress} (async : txn.route = .async)
    (node : e ∈ p.orders) (opened : e ∈ p.opened txn.route) : p.Counting txn.route := by
  have some : p.orders ≠ [] := ne_nil_of_mem node
  refine ⟨async, ?_⟩
  cases stage : p.stage with
  | counted => trivial
  | closing orders =>
    rw [Progress.opened, stage] at opened
    exact ne_nil_of_mem opened
  | ended => simp [Progress.opened, stage] at opened
  | _ => exact some

namespace Pipeline

variable {cfg : CompletionConfig} {t u : Nat} {w w' : Pipeline} {e : Int}

/-- The counter of a shard does not miss a pending completion. -/
theorem Coherent.fast_path (coherent : w.Coherent cfg) (idle : w.asyncCompletionPending e = false)
    (member : u ∈ line w.history e) (async : (cfg.txns u).route = .async) :
    w.chains.closed u e = true := by
  have sound := coherent.sound u
  have node := (sound.inLine e).mp member
  refine (sound.closed e).mpr ⟨node, fun opened => ?_⟩
  have counted := (coherent.counted.mem u).mpr (Progress.counting_of_opened async node opened)
  have first : e = (cfg.txns u).first := by
    rcases sound.formed.single (by simp [async]) with bare | one
    · simp [bare] at node
    · simpa [one] using node
  have zero : w.asyncPending (pendingShard e) = 0 := by simpa [asyncCompletionPending] using idle
  rw [coherent.counted.total, Int.natCast_eq_zero, countP_eq_zero] at zero
  exact zero u counted (by simp [first])

theorem Coherent.releasing (coherent : w.Coherent cfg)
    (stage : (w.progress t).stage = .closing (e :: rest) ∨ (w.progress t).stage = .unchaining (e :: rest)) :
    e :: rest <:+ (w.progress t).orders ∧ e ∈ (w.progress t).orders ∧ e ∉ rest := by
  have formed := (coherent.sound t).formed
  have trail : e :: rest <:+ (w.progress t).orders := by
    rcases stage with stage | stage <;> simpa [Progress.remaining, stage] using formed.remaining
  exact ⟨trail, trail.subset mem_cons_self, (nodup_cons.mp (formed.nodup.sublist trail.sublist)).1⟩

section
variable {i : Input} (move : Move cfg w i w')
include move

theorem Move.formed (coherent : w.Coherent cfg) (u : Nat) : (w'.progress u).Formed (cfg.txns u) := by
  have formed := (coherent.sound u).formed
  have ⟨nodup, members, fresh, unlinked, single, pipelined, asynchronous, ordering, remaining, last⟩ := formed
  cases move with
  | stride i stride | postpone i stride =>
    have := stride.formed
    simp only [Pipeline.stride, put, update_apply]
    grind
  | link i enter | phaseOne i enter =>
    have := enter.formed
    simp only [Pipeline.link, Pipeline.settle, log, goto, put, update_apply]
    grind
  | @drop t e rest stage =>
    obtain ⟨trail, node, -⟩ := coherent.releasing (.inr stage)
    have shorter := (suffix_cons e rest).trans trail
    -- an asynchronous transaction has a single node
    have alone (async : (cfg.txns t).route = .async) : rest = [] := by
      have length := trail.length_le
      rcases (coherent.sound t).formed.single (by simp [async]) with bare | one
      · simp [bare] at node
      · simpa [one] using length
    constructor <;> simp only [goto, put, update_apply]
    all_goals grind [Progress.remaining]
  | pumpForward rejected =>
    cases rejected <;> constructor <;> simp only [put] <;> grind [Progress.remaining]
  | _ =>
    constructor
    all_goals try simp only [Pipeline.settle, log, goto, put, update_apply]
    all_goals grind [Progress.remaining]

omit move in
theorem Stride.sound (stride : Stride cfg w t p event new) (coherent : w.Coherent cfg) (u : Nat) :
    (w.stride t p event new).Sound cfg u := by
  have formed := stride.formed
  have orders := stride.orders
  have locked (e : Int) := stride.locked (e := e)
  have opened := stride.opened
  have passed := stride.unawaited
  have looked (e : Int) := stride.checked (e := e)
  -- whoever was in the chain at the lock is in it now
  have fast (e : Int) (idle : w.asyncCompletionPending e = false) (v : Nat) :=
    coherent.fast_path (u := v) idle
  have held := stride.holds (coherent.sound t).holds
  obtain ⟨formed, holds, owns, inLine, closed, awaited, unmoved, behind, checked⟩ := coherent.sound u
  constructor
  all_goals try simp only [stride.line, stride.seen]
  all_goals simp only [Pipeline.stride, put, update_apply]
  all_goals grind

omit move in
/-- The transaction enters the chain of an entity whose lock it holds. -/
theorem Enter.sound (enter : Enter cfg w t e stage) (coherent : w.Coherent cfg)
    (again : (((w.link t e).goto t stage).progress u).Formed (cfg.txns u)) :
    ((w.link t e).goto t stage).Sound cfg u := by
  have owned := enter.owned (coherent.sound t)
  have new := enter.new (coherent.sound t).formed
  have before := (coherent.sound t).unmoved e owned
  have held := (coherent.sound t).holds enter.holding
  have locked := enter.locked
  have opened := enter.opened
  have opened_before := enter.opened_before
  have unawaited := enter.unawaited
  have looked := enter.checked
  obtain ⟨formed, holds, owns, inLine, closed, awaited, unmoved, behind, checked⟩ := coherent.sound u
  refine ⟨again, ?_, ?_, ?_, ?_, ?_, ?_, ?_, ?_⟩
  all_goals simp only [Pipeline.link, log, goto, put, update_apply, line, seen, link_closed]
  case refine_5 =>
    intro e' member passed v found
    have other : u ≠ t := by grind
    rw [link_prev_of_ne (.inl other)] at found
    exact awaited e' (by grind) (by grind) v found
  all_goals grind [suffix_cons, List.IsSuffix.trans]

theorem Move.sound (coherent : w.Coherent cfg) (u : Nat) : w'.Sound cfg u := by
  have again := move.formed coherent u
  obtain ⟨formed, holds, owns, inLine, closed, awaited, unmoved, behind, checked⟩ := coherent.sound u
  cases move with
  | stride i stride | postpone t stride => exact { stride.sound coherent u with }
  | link i enter | phaseOne t enter => exact { enter.sound coherent again with formed := again }
  | close t stage =>
    obtain ⟨trail, node, once⟩ := coherent.releasing (.inl stage)
    refine ⟨again, ?_, ?_, ?_, ?_, ?_, ?_, ?_, ?_⟩
    all_goals simp only [log, goto, put, update_apply, line, seen, Chains.Awaited, close_closed,
      close_prev] at *
    all_goals grind [TxnStage.Holding, TxnStage.Locked, Progress.unchecked, Progress.opened, Progress.unawaited]
  | drop t stage =>
    refine ⟨again, ?_, ?_, ?_, ?_, ?_, ?_, ?_, ?_⟩
    all_goals simp only [goto, put, update_apply, Chains.Awaited, drop_closed, drop_prev] at *
    all_goals grind [TxnStage.Holding, TxnStage.Locked, Progress.unchecked, Progress.opened, Progress.unawaited]
  | pumpForward rejected =>
    cases rejected <;> refine ⟨again, ?_, ?_, ?_, ?_, ?_, ?_, ?_, ?_⟩
    all_goals simp only [put]
    all_goals grind [Progress.unchecked, Progress.opened, Progress.unawaited]
  | _ =>
    have fresh := formed.fresh
    refine ⟨again, ?_, ?_, ?_, ?_, ?_, ?_, ?_, ?_⟩
    all_goals try simp only [Pipeline.settle, log, goto, put, update_apply, line, seen]
    all_goals grind [TxnStage.Holding, TxnStage.Locked, Progress.unchecked, Progress.opened, Progress.unawaited]

omit move in
theorem Enter.chained (enter : Enter cfg w t e stage) (coherent : w.Coherent cfg) (e' : Int) :
    (w.chains.link t e).Linked e' (line (.linked t e :: w.history) e') := by
  have sound := coherent.sound t
  have new := enter.new sound.formed
  have chained := coherent.chained e'
  unfold line
  split
  · rename_i same
    subst same
    refine chained.link (fun member => new ((sound.inLine e).mp member)) ?_
    rw [← Bool.not_eq_true, sound.closed]
    exact fun inside => new inside.1
  · rename_i other
    exact chained.congr (link_tail_of_ne (Ne.symm other)) (fun _ => link_prev_of_ne (.inr (Ne.symm other)))
      fun _ => rfl

theorem Move.chained (coherent : w.Coherent cfg) (e : Int) : w'.chains.Linked e (line w'.history e) := by
  have chained := coherent.chained e
  cases move with
  | stride i stride | postpone t stride => exact (stride.line e).symm ▸ chained
  | link i enter | phaseOne t enter => exact enter.chained coherent e
  | @close t k rest stage =>
    obtain ⟨-, node, -⟩ := coherent.releasing (.inl stage)
    by_cases same : e = k
    · subst same
      exact chained.close ((coherent.sound t).awaited e node (by simp [Progress.unawaited, stage]))
    · refine chained.congr rfl (fun _ => rfl) fun u => ?_
      change (w.chains.close t k).closed u e = _
      rw [Bool.eq_iff_iff, close_closed]
      simp [same]
  | @drop t k rest stage =>
    obtain ⟨-, node, once⟩ := coherent.releasing (.inr stage)
    by_cases same : e = k
    · subst same
      exact chained.drop (((coherent.sound t).closed e).mpr ⟨node, by simpa [Progress.opened, stage]⟩)
    · exact chained.congr (drop_tail_of_ne same) (by simp) (by simp)
  | pumpForward rejected => cases rejected <;> exact chained
  | _ => exact chained

omit move in
theorem Counted.link (enter : Enter cfg w t e stage) (coherent : w.Coherent cfg) :
    ((w.link t e).goto t stage).Counted cfg := by
  have counting := enter.counting (coherent.sound t).formed
  obtain ⟨nodup, mem, total⟩ := coherent.counted
  constructor
  all_goals simp only [Pipeline.link, log, goto, put, update_apply, countedIn]
  all_goals grind

omit move in
theorem Counted.stride (stride : Stride cfg w t p event new) (coherent : w.Coherent cfg) :
    (w.stride t p event new).Counted cfg := by
  have counting := stride.counting
  obtain ⟨nodup, mem, total⟩ := coherent.counted
  refine ⟨?_, fun u => ?_, ?_⟩ <;> rw [stride.countedIn]
  · exact nodup
  · simp only [Pipeline.stride, put, update_apply]
    grind
  · exact total

theorem Move.counted (coherent : w.Coherent cfg) : w'.Counted cfg := by
  obtain ⟨nodup, mem, total⟩ := coherent.counted
  cases move with
  | stride i stride | postpone i stride => exact { Counted.stride stride coherent with }
  | link i enter | phaseOne t enter => exact { Counted.link enter coherent with }
  | count t stage async =>
    have formed := (coherent.sound t).formed
    have bare := formed.unlinked (formed.pipelined (.inl stage)) (.inr (.inl stage))
    have uncounted : t ∉ countedIn w.history := by simp [mem, Progress.Counting, stage, bare]
    refine ⟨nodup_cons.mpr ⟨uncounted, nodup⟩, fun u => ?_, fun shard => ?_⟩
    · by_cases here : u = t
      · subst here
        simp [log, countedIn, goto, put, Progress.Counting, async]
      · simp [log, countedIn, goto, put, here, mem]
    · by_cases here : pendingShard (cfg.txns t).first = shard
      · subst here
        simp [log, countedIn, goto, put, total]
      · simp [log, countedIn, goto, put, total, here, Ne.symm here]
  | uncount t stage =>
    obtain ⟨-, some⟩ := (coherent.sound t).formed.last [] stage
    have async := (coherent.sound t).formed.asynchronous (.inr (.inr ⟨[], stage⟩))
    have counted : t ∈ countedIn w.history := by simp [mem, Progress.Counting, stage, async, some]
    refine ⟨nodup.erase t, fun u => ?_, fun shard => ?_⟩
    · by_cases here : u = t
      · subst here
        simp [log, countedIn, goto, put, Progress.Counting, nodup.mem_erase_iff]
      · simp [log, countedIn, goto, put, here, mem, mem_erase_of_ne here]
    · have total := total shard
      rw [(perm_cons_erase counted).countP_eq, countP_cons] at total
      by_cases here : pendingShard (cfg.txns t).first = shard
      · subst here
        simp [log, countedIn, goto, put, total]
      · simp [log, countedIn, goto, put, total, here, Ne.symm here]
  | close t stage | drop t stage =>
    obtain ⟨-, node, -⟩ := coherent.releasing (by first | exact .inl stage | exact .inr stage)
    constructor
    all_goals simp only [log, goto, put, update_apply, countedIn]
    all_goals grind [Progress.Counting]
  | pumpForward rejected =>
    cases rejected <;> constructor <;> simp only [put] <;> grind [Progress.Counting]
  | _ =>
    constructor
    all_goals try simp only [Pipeline.settle, log, goto, put, update_apply, countedIn]
    all_goals grind [Progress.Counting]

theorem Move.coherent (coherent : w.Coherent cfg) : w'.Coherent cfg := by
  refine ⟨?_, move.sound coherent, move.chained coherent, move.counted coherent⟩
  have intact := coherent.intact
  cases move with
  | pumpForward rejected => cases rejected <;> exact intact
  | _ => exact intact

end

theorem step_coherent (coherent : w.Coherent cfg) (intact : input ≠ .walFail) :
    (w.step cfg input).Coherent cfg :=
  (coherent.step_move intact).coherent coherent

theorem init_coherent : init.Coherent cfg := by
  refine ⟨rfl, fun t => ?_, fun e => empty_linked, ⟨nodup_nil, fun t => ?_, fun _ => rfl⟩⟩
  · refine ⟨⟨nodup_nil, nofun, fun _ => rfl, fun _ _ => rfl, fun _ => .inl rfl, nofun, ?_, nofun,
      nil_suffix, nofun⟩, False.elim, nofun, ?_, ?_, nofun, nofun, nofun, ?_⟩
    · rintro (early | early | ⟨_, early⟩) <;> simp [init] at early
    · simp [init, line]
    · simp [init, empty]
    · exact fun _ e declared looked => absurd declared looked
  · simp [init, countedIn, Progress.Counting]

end Pipeline

end Roost.Nest
