import RoostCore.Nest.CompletionHistory
import Mathlib.Algebra.Order.BigOperators.Group.Finset

/-! No completion waits in a circle. The transactions are put in the order in which they let
go of their locks; a completion waits only for smaller ones: on its chain, in the queue of
the pump and at a worker of the pool. So the pipeline drains. -/
namespace Roost.Nest
open Option Function

namespace CompletionEvent

/-- When the transaction had done everything that needs its locks. -/
def key : List CompletionEvent → Nat → Nat
  | [], _ => 0
  | .settled t' :: older, t => if t' = t then older.length + 1 else key older t
  | _ :: older, t => key older t

variable {event : CompletionEvent} {older : List CompletionEvent} {t : Nat}

theorem key_le : key older t ≤ older.length := by
  induction older with
  | nil => rfl
  | cons event older ih =>
    cases event with
    | settled u =>
      by_cases same : u = t
      · simp [key, same]
      · simpa [key, same] using ih.trans (Nat.le_succ _)
    | _ => simpa [key] using ih.trans (Nat.le_succ _)

theorem key_cons (other : event ≠ .settled t) : key (event :: older) t = key older t := by
  cases event with
  | settled u =>
    have : u ≠ t := fun same => other (same ▸ rfl)
    simp [key, this]
  | _ => rfl

/-- The key that is given now goes to no one in the list. -/
theorem pairwise_settled {list : List Nat} (outside : t ∉ list)
    (sorted : list.Pairwise fun u v => key older u < key older v) :
    list.Pairwise fun u v => key (.settled t :: older) u < key (.settled t :: older) v := by
  refine sorted.imp_of_mem fun {u v} first second less => ?_
  have others : t ≠ u ∧ t ≠ v := ⟨fun same => outside (same ▸ first), fun same => outside (same ▸ second)⟩
  simpa [key, others] using less

end CompletionEvent

open CompletionEvent

def PumpStage.entries : PumpStage → List Nat
  | .idle => []
  | .waiting t | .running t => [t]

namespace Pipeline

/-- The places of the handed-over completions are in the order of the keys. -/
structure Queued (cfg : CompletionConfig) (w : Pipeline) : Prop where
  ahead : ∀ e t u, [t, u].Sublist (line w.history e) → (w.progress u).stage.Settled ∧
    ((w.progress t).stage.Settled → key w.history u < key w.history t)
  pumped : (w.pump.entries ++ w.queue).Pairwise fun t u => key w.history t < key w.history u
  pooled : ∀ k, (w.pool k).Pairwise fun t u => key w.history t < key w.history u
  between : ∀ k, ∀ t ∈ w.pool k, ∀ u ∈ w.pump.entries ++ w.queue, key w.history t < key w.history u
  handed : ∀ t, t ∈ w.pump.entries ++ w.queue ∨ (∃ k, t ∈ w.pool k) →
    (w.progress t).stage.Settled ∧ (w.progress t).deferred = true
  placed : ∀ t, (w.progress t).deferred = true → (w.progress t).stage ≠ .ended →
    t ∈ w.pump.entries ++ w.queue ∨ t ∈ w.pool (cfg.worker (cfg.txns t).first)

/-- What the steps of one transaction rest on besides its orders. -/
structure Ready (w : Pipeline) (t : Nat) : Prop where
  began : (w.progress t).stage ≠ .locking → ∃ e, .locked t e ∈ w.history
  ticketed : (w.progress t).deferred = true ∨ (w.progress t).stage = .durable ∨
    (w.progress t).stage = .enqueued ∨ (w.progress t).stage = .counted ∨ (w.progress t).stage = .linked →
    ∃ lsn, (w.progress t).ticket = some lsn
  issued : ∀ lsn, (w.progress t).ticket = some lsn → lsn < w.nextLSN
  unchaining : (w.progress t).stage ≠ .unchaining []

structure Draining (cfg : CompletionConfig) (w : Pipeline) : Prop where
  queued : w.Queued cfg
  ready : ∀ t, w.Ready t
  synced : w.durableLSN ≤ w.nextLSN

variable {cfg : CompletionConfig} {t u : Nat} {w w' : Pipeline} {e : Int}

section
variable {p : Progress} {event : Option CompletionEvent} {next : Nat}

theorem Stride.key (stride : Stride cfg w t p event next) (u : Nat) :
    key (w.stride t p event next).history u = key w.history u := by
  cases shown : event with
  | none => rfl
  | some x =>
    refine key_cons fun same => ?_
    simpa [same] using stride.silent x shown

theorem Stride.issued (stride : Stride cfg w t p event next) : w.nextLSN ≤ next := by
  cases stride <;> simp

theorem Stride.ticket (stride : Stride cfg w t p event next) :
    p.ticket = (w.progress t).ticket ∨ p.ticket = some w.nextLSN ∧ w.nextLSN < next := by
  cases stride with
  | enqueue => exact .inr ⟨rfl, Nat.lt_succ_self _⟩
  | _ => exact .inl rfl

/-- A stage that can be reached with the ticket. -/
def TxnStage.Allowed (stage : TxnStage) (ticket : Option Nat) : Prop :=
  stage ≠ .unchaining [] ∧
    (stage = .durable ∨ stage = .enqueued ∨ stage = .counted ∨ stage = .linked → ticket.isSome)

theorem Stride.allowed (stride : Stride cfg w t p event next) : TxnStage.Allowed p.stage p.ticket := by
  unfold TxnStage.Allowed
  cases stride <;> grind [afterCallbacks]

theorem Ready.frame (ready : w.Ready u) (same : w'.progress u = w.progress u)
    (history : w.history ⊆ w'.history) (issued : w.nextLSN ≤ w'.nextLSN) : w'.Ready u := by
  constructor <;> rw [same]
  · exact fun past => (ready.began past).imp fun e locked => history locked
  · exact ready.ticketed
  · exact fun lsn held => (ready.issued lsn held).trans_le issued
  · exact ready.unchaining

/-- A step of one transaction to another stage, perhaps with its completion handed over. -/
theorem Ready.goes (ready : w.Ready u) (began : (w.progress t).stage ≠ .locking ∨ ∃ e, .locked t e ∈ w.history)
    (others : ∀ v ≠ t, w'.progress v = w.progress v)
    (ticket : (w'.progress t).ticket = (w.progress t).ticket ∨
      (w'.progress t).ticket = some w.nextLSN ∧ w.nextLSN < w'.nextLSN)
    (allowed : TxnStage.Allowed (w'.progress t).stage (w'.progress t).ticket)
    (deferred : (w'.progress t).deferred = true → (w.progress t).deferred = true ∨ (w.progress t).stage = .linked)
    (history : w.history ⊆ w'.history) (issued : w.nextLSN ≤ w'.nextLSN) : w'.Ready u := by
  by_cases same : u = t
  · subst same
    refine ⟨fun _ => ?_, fun needs => ?_, fun lsn held => ?_, allowed.1⟩
    · obtain ⟨e, locked⟩ := began.elim ready.began id
      exact ⟨e, history locked⟩
    · refine isSome_iff_exists.mp (needs.elim (fun old => ?_) allowed.2)
      obtain ⟨lsn, old⟩ := ready.ticketed ((deferred old).imp_right fun linked => .inr (.inr (.inr linked)))
      rcases ticket with same | ⟨new, -⟩
      · rw [same, old]
        rfl
      · rw [new]
        rfl
    · rcases ticket with same | ⟨new, less⟩
      · exact (ready.issued lsn (same ▸ held)).trans_le issued
      · cases new.symm.trans held
        exact less
  · exact ready.frame (others u same) history issued

theorem Ready.stride (ready : w.Ready u) (recorded : w.Recorded cfg) (stride : Stride cfg w t p event next) :
    (w.stride t p event next).Ready u := by
  have began := stride.started.imp_right (Exists.imp (recorded.told t).held)
  have now : (w.stride t p event next).progress t = p := update_self ..
  refine ready.goes began (fun v other => update_of_ne other ..) ?_ ?_ ?_
    (List.subset_append_right ..) stride.issued <;> rw [now]
  · exact stride.ticket
  · exact stride.allowed
  · exact fun old => .inl (stride.deferred ▸ old)

/-- Steps that leave the chains, the keys and the places of the completions. -/
theorem Queued.frame (queued : w.Queued cfg) (lines : ∀ e, line w'.history e = line w.history e)
    (keys : ∀ t, CompletionEvent.key w'.history t = CompletionEvent.key w.history t)
    (places : w'.pump.entries ++ w'.queue = w.pump.entries ++ w.queue) (pool : w'.pool = w.pool)
    (progress : ∀ t, ((w'.progress t).stage.Settled ↔ (w.progress t).stage.Settled) ∧
      (w'.progress t).deferred = (w.progress t).deferred ∧
      ((w'.progress t).stage ≠ .ended → (w.progress t).stage ≠ .ended)) : w'.Queued cfg := by
  constructor <;> simp only [lines, keys, places, pool, progress]
  · exact queued.ahead
  · exact queued.pumped
  · exact queued.pooled
  · exact queued.between
  · exact queued.handed
  · exact fun t deferred running => queued.placed t deferred ((progress t).2.2 running)

theorem Queued.stride (queued : w.Queued cfg) (stride : Stride cfg w t p event next) :
    (w.stride t p event next).Queued cfg := by
  have ended : p.stage ≠ .ended → (w.progress t).stage ≠ .ended := by
    cases stride <;> simp_all
  refine queued.frame stride.line stride.key rfl rfl fun u => ?_
  by_cases same : u = t
  · subst same
    simpa [Pipeline.stride, put] using ⟨stride.settled, stride.deferred, ended⟩
  · simp [Pipeline.stride, put, same]

end

/-- Nobody else has a key as large as the one that is given now. -/
theorem Queued.settle {p : Progress} (queued : w.Queued cfg) (holding : (w.progress t).stage.Holding)
    (deferred : p.deferred = (w.progress t).deferred) : ((w.put t p).settle t).Queued cfg := by
  have early := holding.not_settled
  have running : (w.progress t).stage ≠ .ended := by grind [TxnStage.Holding]
  have largest (u : Nat) : key w.history u ≤ w.history.length := key_le
  obtain ⟨ahead, pumped, pooled, between, handed, placed⟩ := queued
  constructor <;> simp only [Pipeline.settle, log, goto, put, update_apply]
  case pumped => exact pairwise_settled (by grind) pumped
  case pooled => exact fun k => pairwise_settled (by grind) (pooled k)
  all_goals grind [key, line]

theorem Queued.enqueue (queued : w.Queued cfg) (settled : (w.progress t).stage.Settled)
    (newest : ∀ u ≠ t, key w.history u < key w.history t)
    (fresh : t ∉ w.pump.entries ++ w.queue ∧ ∀ k, t ∉ w.pool k) :
    { w.put t { w.progress t with deferred := true } with queue := w.queue ++ [t] }.Queued cfg := by
  obtain ⟨ahead, pumped, pooled, between, handed, placed⟩ := queued
  constructor <;> simp only [put, update_apply] <;> grind

theorem Queued.submit (queued : w.Queued cfg) (stage : (w.progress t).stage = .linked) :
    (({ w with queue := w.queue ++ [t] }.put t { w.progress t with deferred := true }).settle t).Queued cfg := by
  have holding : (w.progress t).stage.Holding := by simp [stage, TxnStage.Holding]
  have early : ¬(w.progress t).stage.Settled := holding.not_settled
  have settled := queued.settle (p := w.progress t) holding rfl
  rw [put_self] at settled
  have now : (w.settle t).progress t = { w.progress t with stage := .releasing } := by
    simp [Pipeline.settle, log]
  have newest (u : Nat) (other : u ≠ t) : key (w.settle t).history u < key (w.settle t).history t := by
    have largest : key w.history u ≤ w.history.length := key_le
    grind [Pipeline.settle, log, goto, put, key]
  have enqueued := settled.enqueue (t := t) (by simp [now, TxnStage.Settled, TxnStage.Holding]) newest
    ⟨fun member => early (queued.handed t (.inl member)).1, fun k member => early (queued.handed t (.inr ⟨k, member⟩)).1⟩
  simpa [Pipeline.settle, goto, put, log] using enqueued

/-- Who is in the chain of an entity that another one has locked has settled. -/
theorem Coherent.settled_of_mem_line (coherent : w.Coherent cfg) (owned : w.owner e = some t)
    (member : u ∈ line w.history e) (other : u ≠ t) : (w.progress u).stage.Settled := by
  have sound := coherent.sound u
  have node := (sound.inLine e).mp member
  refine ⟨fun first => ?_, fun held => other ?_⟩
  · simp [sound.formed.fresh first] at node
  · have mine := sound.holds held e (sound.formed.declared e node)
    exact some.inj (mine.symm.trans owned)

/-- The transaction enters a chain under its lock: all that are in the chain have settled. -/
theorem Queued.link (queued : w.Queued cfg) (stage : TxnStage) (coherent : w.Coherent cfg)
    (owned : w.owner e = some t) (new : e ∉ (w.progress t).orders) (holding : (w.progress t).stage.Holding)
    (next : stage.Holding) : ((w.link t e).goto t stage).Queued cfg := by
  have early := holding.not_settled
  have later := next.not_settled
  have running : (w.progress t).stage ≠ .ended := by grind [TxnStage.Holding]
  have same (u : Nat) : (((w.link t e).goto t stage).progress u).stage.Settled ↔ (w.progress u).stage.Settled := by
    simp only [Pipeline.link, log, goto, put, update_apply]
    grind
  obtain ⟨ahead, pumped, pooled, between, handed, placed⟩ := queued
  constructor
  case ahead =>
    intro e' x y sub
    rw [same, same]
    simp only [Pipeline.link, log, goto, put, line] at sub
    split at sub
    · rename_i here
      subst here
      rcases Chains.pair_sublist_cons.mp sub with ⟨rfl, member⟩ | sub
      · refine ⟨coherent.settled_of_mem_line owned member ?_, fun last => absurd last early⟩
        rintro rfl
        exact new (((coherent.sound y).inLine _).mp member)
      · exact ahead _ x y sub
    · exact ahead _ x y sub
  all_goals simp only [Pipeline.link, log, goto, put, update_apply, key]
  all_goals grind

theorem Queued.forward (queued : w.Queued cfg) (pump : w.pump = .running t) : { w with
      pump := .idle
      pool := update w.pool (cfg.worker (cfg.txns t).first)
        (w.pool (cfg.worker (cfg.txns t).first) ++ [t]) }.Queued cfg := by
  obtain ⟨ahead, pumped, pooled, between, handed, placed⟩ := queued
  simp only [pump, PumpStage.entries] at *
  constructor <;> dsimp only [PumpStage.entries] <;> grind

theorem Queued.moved (queued : w.Queued cfg) (coherent : w.Coherent cfg) (move : Move cfg w i w') :
    w'.Queued cfg := by
  cases move with
  | idle => exact queued
  | stride i stride => exact queued.stride stride
  | postpone t stride =>
    exact (queued.stride stride).frame (fun _ => rfl) (fun _ => rfl) rfl rfl fun _ => ⟨.rfl, rfl, id⟩
  | settle i stage orders ticket deferred =>
    refine queued.settle ?_ deferred
    rcases stage with stage | stage <;> simp [stage, TxnStage.Holding]
  | submit t stage => exact queued.submit stage
  | @link i t e stage enter holding =>
    exact queued.link stage coherent (enter.owned (coherent.sound t)) (enter.new (coherent.sound t).formed)
      enter.holding holding
  | phaseOne t enter =>
    have linked := queued.link .linked coherent (enter.owned (coherent.sound t)) (enter.new (coherent.sound t).formed)
      enter.holding trivial
    have settled := linked.settle (t := t) (p := ((w.link t (cfg.txns t).first).goto t .linked).progress t)
      (by simp [TxnStage.Holding]) rfl
    simpa [Pipeline.settle, goto, put, log] using settled
  | @pumpForward t rejected committed pump =>
    have kept : { w.put t { w.progress t with committed } with pump := .running t }.Queued cfg := by
      refine queued.frame (fun _ => rfl) (fun _ => rfl) (by simp [pump, PumpStage.entries, put]) rfl fun u => ?_
      by_cases same : u = t <;> simp [put, same]
    cases rejected with
    | true => exact kept
    | false => exact kept.forward rfl
  | pumpTake pump queue =>
    exact queued.frame (fun _ => rfl) (fun _ => rfl) (by simp [pump, queue, PumpStage.entries]) rfl
      fun _ => ⟨.rfl, rfl, id⟩
  | pumpNext pump past | workerNext worker tasks past =>
    obtain ⟨ahead, pumped, pooled, between, handed, placed⟩ := queued
    constructor <;> dsimp only <;> grind [PumpStage.entries]
  | count t stage | close t stage | drop t stage | uncount t stage =>
    refine queued.frame (fun _ => rfl) (fun _ => rfl) rfl rfl fun u => ?_
    by_cases same : u = t
    · simp only [log, goto, put]
      grind [TxnStage.Settled, TxnStage.Holding]
    · simp [log, goto, put, same]
  | _ => exact queued.frame (fun _ => rfl) (fun _ => rfl) rfl rfl fun _ => ⟨.rfl, rfl, id⟩

theorem Ready.moved (ready : ∀ u, w.Ready u) (recorded : w.Recorded cfg) (move : Move cfg w i w') (u : Nat) :
    w'.Ready u := by
  cases move with
  | stride i stride => exact (ready u).stride recorded stride
  | postpone t stride => exact ((ready u).stride recorded stride).frame rfl (fun _ => id) (Nat.le_refl _)
  | @link _ t _ _ enter | @phaseOne t enter =>
    have ticketed := (ready t).ticketed
    cases enter
    all_goals
      refine (ready u).goes (t := t) ?_ (fun v other => ?_) ?_ ?_ ?_ ?_ (Nat.le_refl _)
      all_goals simp_all [link, Pipeline.settle, log, goto, put, TxnStage.Allowed, isSome_iff_exists]
  | @settle _ t _ stage =>
    refine (ready u).goes (t := t) (.inl (by rcases stage with stage | stage <;> simp [stage])) (fun v other => ?_)
      ?_ ?_ ?_ ?_ (Nat.le_refl _)
    all_goals simp_all [Pipeline.settle, log, goto, put, TxnStage.Allowed]
  | submit t | close t | drop t | uncount t | count t =>
    have ticketed := (ready t).ticketed
    refine (ready u).goes (t := t) ?_ (fun v other => ?_) ?_ ?_ ?_ ?_ (Nat.le_refl _)
    all_goals simp_all [Pipeline.settle, log, goto, put, TxnStage.Allowed, isSome_iff_exists]
    all_goals split <;> simp
  | @pumpForward t rejected =>
    have known := ready u
    by_cases same : u = t
    all_goals
      obtain ⟨began, ticketed, issued, unchaining⟩ := known
      cases rejected <;> constructor <;> simp_all [put]
  | _ => exact (ready u).frame rfl (by simp [log]) (Nat.le_refl _)

theorem Draining.moved (draining : w.Draining cfg) (coherent : w.Coherent cfg)
    (recorded : w.Recorded cfg) (move : Move cfg w i w') : w'.Draining cfg := by
  refine ⟨draining.queued.moved coherent move, Ready.moved draining.ready recorded move, ?_⟩
  have synced := draining.synced
  cases move with
  | stride i stride =>
    have issued : w.nextLSN ≤ _ := stride.issued
    exact synced.trans issued
  | sync lsn later issued => exact issued
  | pumpForward rejected => cases rejected <;> exact synced
  | _ => exact synced

theorem step_draining (coherent : w.Coherent cfg) (intact : input ≠ .walFail)
    (recorded : w.Recorded cfg) (draining : w.Draining cfg) : (w.step cfg input).Draining cfg :=
  draining.moved coherent recorded (coherent.step_move intact)

theorem init_draining : init.Draining cfg :=
  ⟨⟨nofun, .nil, fun _ => .nil, nofun, by simp [init, PumpStage.entries], nofun⟩,
    fun _ => ⟨by simp [init], by simp [init], nofun, nofun⟩, le_rfl⟩

/-- What holds along every run without a failure of the WAL. -/
structure Standing (cfg : CompletionConfig) (w : Pipeline) : Prop where
  coherent : w.Coherent cfg
  served : w.Served cfg
  recorded : w.Recorded cfg
  draining : w.Draining cfg

theorem step_standing (intact : input ≠ .walFail) (standing : w.Standing cfg) :
    (w.step cfg input).Standing cfg :=
  ⟨step_coherent standing.coherent intact, step_served standing.coherent intact standing.served,
    step_recorded standing.coherent intact standing.served standing.recorded,
    step_draining standing.coherent intact standing.recorded standing.draining⟩

theorem run_standing (intact : ∀ i ∈ inputs, i ≠ .walFail) :
    (run (step cfg) init inputs).Standing cfg := by
  have along : Along (step cfg) (fun _ i => i ≠ .walFail) init inputs := along_of_forall intact
  exact invariant_along (fun _ _ intact standing => step_standing intact standing)
    ⟨init_coherent, init_served, init_recorded, init_draining⟩ along

end Pipeline

end Roost.Nest
