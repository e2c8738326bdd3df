import RoostCore.Nest.CompletionDrain
import Mathlib.Algebra.BigOperators.Group.Finset.Piecewise

/-! The completions end. Every step of a goroutine or of the WAL lowers the work that the
started jobs have left, so a run in which nothing new begins is finite. -/
namespace Roost.Nest

open CompletionEvent List Function

/-- What a transaction has left to do in its stage. -/
def Progress.left (txn : Txn) (p : Progress) : Nat :=
  match p.stage with
  | .ended => 0
  | .replying => if txn.route = .async then 3 * p.orders.length + 4 else 1
  | .callbacks => if txn.route = .remote then 2 else 3 * p.orders.length + 5
  | .closing orders => 3 * orders.length + 3
  | .unchaining orders => 3 * orders.length + 2
  | .uncounting orders => 3 * orders.length + 4
  | .waiting orders => 3 * p.orders.length + orders.length + 6
  | .durable => 4 * p.orders.length + 7
  | .releasing => 4 * p.orders.length + 8
  | .linked => 4 * p.orders.length + txn.es.length + 12
  | .counted => 4 * p.orders.length + txn.es.length + 17
  | .enqueued => 4 * p.orders.length + txn.es.length + 18
  | .handling => 4 * p.orders.length + txn.es.length + 20
  | .ordering es => 4 * p.orders.length + 5 * es.length + txn.es.length + 21
  | .locking => 4 * p.orders.length + 6 * txn.es.length + 22

def PumpStage.left : PumpStage → Nat
  | .idle => 0
  | .waiting _ => 2
  | .running _ => 1

namespace Pipeline

variable {cfg : CompletionConfig} {t u : Nat} {w w' : Pipeline} {e : Int}

/-- The locks that the transaction is still to release. -/
def locksLeft (cfg : CompletionConfig) (w : Pipeline) (t : Nat) : Nat :=
  if (w.progress t).stage = .releasing then (cfg.txns t).es.countP fun e => w.owner e == some t else 0

def rank (cfg : CompletionConfig) (w : Pipeline) (t : Nat) : Nat :=
  (w.progress t).left (cfg.txns t) + w.locksLeft cfg t +
    (w.pool (cfg.worker (cfg.txns t).first)).count t

/-- The work that is left to the jobs, the pump, the WAL and the stop. -/
def work (cfg : CompletionConfig) (w : Pipeline) : Nat :=
  (∑ t ∈ w.jobs.toFinset, w.rank cfg t) + 3 * w.queue.length + w.pump.left +
    (w.nextLSN - w.durableLSN) + if w.closed then 0 else 1

/-- The work that is not left to a job. -/
def outside (w : Pipeline) : Nat :=
  3 * w.queue.length + w.pump.left + (w.nextLSN - w.durableLSN) + (!w.closed).toNat

theorem work_eq : w.work cfg = (∑ t ∈ w.jobs.toFinset, w.rank cfg t) + w.outside := by
  have stop : (if w.closed then 0 else 1) = (!w.closed).toNat := by cases w.closed <;> rfl
  unfold work outside
  omega

theorem locksLeft_le (w : Pipeline) (cfg : CompletionConfig) (t : Nat) : w.locksLeft cfg t ≤ (cfg.txns t).es.length := by
  unfold locksLeft
  split
  · exact countP_le_length
  · exact Nat.zero_le _

/-- Who neither moves nor takes a lock has no more left to do. -/
theorem rank_le (progress : w'.progress u = w.progress u)
    (owner : ∀ e, w'.owner e = some u → w.owner e = some u)
    (pool : (w'.pool (cfg.worker (cfg.txns u).first)).count u ≤ (w.pool (cfg.worker (cfg.txns u).first)).count u) :
    w'.rank cfg u ≤ w.rank cfg u := by
  have fewer : (cfg.txns u).es.countP (fun e => w'.owner e == some u) ≤ (cfg.txns u).es.countP fun e => w.owner e == some u :=
    countP_mono_left fun e _ => by simpa using owner e
  unfold rank locksLeft
  rw [progress]
  split <;> omega

/-- One job moves: the work changes by what its rank does. -/
theorem work_less (jobs : w'.jobs = w.jobs) (member : t ∈ w.jobs)
    (others : ∀ u ≠ t, w'.rank cfg u ≤ w.rank cfg u)
    (less : w'.rank cfg t + w'.outside < w.rank cfg t + w.outside) : w'.work cfg < w.work cfg := by
  have member : t ∈ w.jobs.toFinset := mem_toFinset.mpr member
  have rest : ∑ u ∈ w.jobs.toFinset.erase t, w'.rank cfg u ≤ ∑ u ∈ w.jobs.toFinset.erase t, w.rank cfg u :=
    Finset.sum_le_sum fun u inside => others u (Finset.ne_of_mem_erase inside)
  rw [work_eq, work_eq, jobs, ← Finset.add_sum_erase _ _ member, ← Finset.add_sum_erase _ (w.rank cfg) member]
  omega

theorem outside_less (jobs : w'.jobs = w.jobs) (ranks : ∀ u, w'.rank cfg u = w.rank cfg u)
    (less : w'.outside < w.outside) : w'.work cfg < w.work cfg := by
  have same : ∑ u ∈ w.jobs.toFinset, w'.rank cfg u = ∑ u ∈ w.jobs.toFinset, w.rank cfg u :=
    Finset.sum_congr rfl fun u _ => ranks u
  rw [work_eq, work_eq, jobs, same]
  omega

theorem Stride.less (stride : Stride cfg w t p event new) :
    p.left (cfg.txns t) + (new - w.nextLSN) < (w.progress t).left (cfg.txns t) := by
  cases stride <;> grind [Progress.left, afterCallbacks, Txn.es]

theorem Stride.free (stride : Stride cfg w t p event new) : p.stage ≠ .releasing := by
  cases stride <;> grind [afterCallbacks]

theorem Served.stride_less (served : w.Served cfg) (stride : Stride cfg w t p event new) :
    (w.stride t p event new).work cfg < w.work cfg := by
  have less := stride.less
  have none : (w.stride t p event new).locksLeft cfg t = 0 := by simp [locksLeft, stride.free]
  refine work_less rfl (served.began t stride.started) (fun u other => ?_) ?_
  · exact rank_le (by simp [Pipeline.stride, put, other]) (fun _ => id) le_rfl
  · simp only [rank, none, stride_progress]
    simp only [Pipeline.stride, put, outside]
    omega

/-- The transaction goes to another stage, which may be the release of its locks. -/
theorem Served.less (served : w.Served cfg) (more : Nat) (jobs : w'.jobs = w.jobs)
    (progress : w'.progress = update w.progress t p) (owner : w'.owner = w.owner)
    (pool : w'.pool = w.pool) (started : (w.progress t).stage ≠ .locking)
    (outside : w'.outside ≤ w.outside + more)
    (less : p.left (cfg.txns t) + (if p.stage = .releasing then (cfg.txns t).es.length else 0) + more <
      (w.progress t).left (cfg.txns t)) : w'.work cfg < w.work cfg := by
  refine work_less jobs (served.began t (.inl started)) (fun u other => ?_) ?_
  · exact rank_le (by simp [progress, other]) (fun e => by simp [owner]) (by rw [pool])
  · have bound := locksLeft_le w' cfg t
    have none (free : p.stage ≠ .releasing) : w'.locksLeft cfg t = 0 := by simp [locksLeft, progress, free]
    simp only [rank, progress, pool, update_self]
    split at less <;> grind

theorem Served.link_less (served : w.Served cfg) (enter : Enter cfg w t e stage) :
    ((w.link t e).goto t stage).work cfg < w.work cfg := by
  refine served.less (t := t) (p := { w.progress t with stage, orders := (w.progress t).orders ++ [e] }) 0 rfl ?_ rfl rfl ?_
    le_rfl ?_
  · simp [Pipeline.link, log, goto, put]
  · cases enter <;> simp_all
  · cases enter <;> grind [Progress.left]

theorem Coherent.unlock_less (coherent : w.Coherent cfg) (served : w.Served cfg)
    (stage : (w.progress t).stage = .releasing) (owned : w.owner e = some t) :
    ({ w with owner := update w.owner e none }.log (.unlocked t e)).work cfg < w.work cfg := by
  have later (u : Nat) (e' : Int) : update w.owner e none e' = some u → w.owner e' = some u := by
    by_cases here : e' = e <;> simp [here]
  refine work_less rfl (served.began t (.inr ⟨e, owned⟩)) (fun u _ => rank_le rfl (later u) le_rfl) ?_
  obtain ⟨before, after, es⟩ := append_of_mem ((coherent.sound t).owns e owned).1
  have fewer (l : List Int) : l.countP (fun e' => update w.owner e none e' == some t) ≤
      l.countP fun e' => w.owner e' == some t :=
    countP_mono_left fun e' _ => by simpa using later t e'
  have first := fewer before
  have last := fewer after
  simp only [rank, outside, Progress.left, locksLeft, stage, Pipeline.log, es, countP_append, countP_cons, owned,
    update_self, ↓reduceIte, beq_self_eq_true, Option.none_beq_some, Bool.false_eq_true]
  omega

/-- Only the pump puts a completion at a worker, and only at the one of its first entity. -/
def Homed (cfg : CompletionConfig) (w : Pipeline) : Prop :=
  ∀ k, ∀ t ∈ w.pool k, k = cfg.worker (cfg.txns t).first

theorem Homed.move (homed : w.Homed cfg) (move : Move cfg w i w') : w'.Homed cfg := by
  cases move with
  | @pumpForward t rejected =>
    cases rejected with
    | true => exact homed
    | false =>
      intro k u member
      simp only [update_apply, Bool.false_eq_true, ↓reduceIte] at member
      split at member
      · rename_i here
        rcases mem_snoc.mp member with member | rfl
        · exact homed k u (here ▸ member)
        · exact here
      · exact homed k u member
  | @workerNext worker t rest tasks =>
    intro k u member
    simp only [update_apply] at member
    split at member
    · rename_i here
      exact homed k u (here ▸ tasks ▸ mem_cons_of_mem t member)
    · exact homed k u member
  | _ => exact homed

/-- What the pump tells a completion does not change what it has left to do. -/
theorem tell_rank : (w.put t { w.progress t with committed }).rank cfg u = w.rank cfg u := by
  by_cases here : u = t
  · subst here
    simp [rank, locksLeft, Progress.left, put]
  · simp [rank, locksLeft, put, here]

/-- The completion leaves the pump, which counts two, and counts one at its worker. -/
theorem Standing.forward_less (standing : w.Standing cfg) (pump : w.pump = .waiting t) (committed : Bool) :
    { w.put t { w.progress t with committed } with
      pump := .idle
      pool := update w.pool (cfg.worker (cfg.txns t).first)
        (w.pool (cfg.worker (cfg.txns t).first) ++ [t]) }.work cfg < w.work cfg := by
  have settled := (standing.draining.queued.handed t (.inl (by simp [pump, PumpStage.entries]))).1
  refine work_less rfl (standing.served.began t (.inl settled.1)) (fun u other => ?_) ?_
  · refine rank_le (by simp [put, other]) (fun _ => id) ?_
    by_cases home : cfg.worker (cfg.txns u).first = cfg.worker (cfg.txns t).first
    · simp [home, Ne.symm other]
    · simp [update_of_ne home]
  · have told := @tell_rank cfg t t w committed
    simp only [rank, locksLeft, outside, put, pump, PumpStage.left, update_self, count_append,
      count_singleton_self] at told ⊢
    omega

theorem Served.workerNext_less (served : w.Served cfg) (homed : w.Homed cfg)
    (tasks : w.pool worker = t :: rest) (past : (w.progress t).stage = .ended) :
    { w with pool := update w.pool worker rest }.work cfg < w.work cfg := by
  have home : worker = cfg.worker (cfg.txns t).first := homed worker t (tasks ▸ mem_cons_self)
  refine work_less rfl (served.began t (.inl (by simp [past]))) (fun u _ => rank_le rfl (fun _ => id) ?_) ?_
  · by_cases here : cfg.worker (cfg.txns u).first = worker
    · simp [here, tasks, count_cons]
    · simp [update_of_ne here]
  · simp [rank, locksLeft, outside, past, ← home, tasks]

/-- The input is a step of a goroutine or of the WAL: it neither begins a transaction nor
breaks the WAL, and brings no outcome of a Remote batch. -/
def Input.Internal : Input → Prop
  | .dispatch _ | .lock _ _ | .conclude _ | .walFail => False
  | _ => True

theorem step_less (standing : w.Standing cfg) (homed : w.Homed cfg) (internal : input.Internal) :
    w.step cfg input = w ∨ (w.step cfg input).work cfg < w.work cfg := by
  have served := standing.served
  have intact : input ≠ .walFail := by
    rintro rfl
    exact internal
  have move := standing.coherent.step_move intact
  generalize w.step cfg input = w' at move
  cases move with
  | idle => exact .inl rfl
  | dispatch | lock | conclude => exact internal.elim
  | stride i stride | postpone t stride =>
    -- the batch does not count
    exact .inr (served.stride_less stride)
  | @settle i t p stage orders =>
    refine .inr (served.less (t := t) (p := { p with stage := .releasing }) 0 rfl ?_ rfl rfl ?_ le_rfl ?_)
    · simp [settle, log, goto, put]
    all_goals grind [Progress.left]
  | submit t stage =>
    refine .inr (served.less (t := t) (p := { w.progress t with deferred := true, stage := .releasing }) 3 rfl ?_ rfl rfl
      ?_ ?_ ?_)
    · simp [settle, log, goto, put]
    · simp [stage]
    · simp [settle, log, goto, put, outside]
      omega
    · grind [Progress.left]
  | link i enter | phaseOne t enter =>
    -- neither does the last event
    exact .inr (served.link_less enter)
  | unlock t e stage owned => exact .inr (standing.coherent.unlock_less served stage owned)
  | count t stage | close t stage | drop t stage | uncount t stage =>
    refine .inr (served.less (t := t) 0 rfl rfl rfl rfl ?_ le_rfl ?_)
    all_goals grind [Progress.left]
  | pumpTake pump queue =>
    refine .inr (outside_less rfl (fun _ => rfl) ?_)
    simp only [outside, pump, queue, PumpStage.left, length_cons]
    omega
  | @pumpForward t rejected committed pump =>
    cases rejected with
    | false => exact .inr (standing.forward_less pump committed)
    | true =>
      refine .inr (outside_less rfl (fun _ => tell_rank) ?_)
      simp [outside, pump, PumpStage.left, put]
  | pumpNext pump =>
    refine .inr (outside_less rfl (fun _ => rfl) ?_)
    simp [outside, pump, PumpStage.left]
  | workerNext worker tasks past => exact .inr (served.workerNext_less homed tasks past)
  | sync lsn later issued =>
    by_cases same : w.durableLSN = lsn
    · subst same
      exact .inl rfl
    · refine .inr (outside_less rfl (fun _ => rfl) ?_)
      simp only [outside]
      omega
  | stop =>
    by_cases closed : w.closed = true
    · refine .inl ?_
      cases w
      simp_all
    · refine .inr (outside_less rfl (fun _ => rfl) ?_)
      simp [outside, closed]

theorem internal_bounded (standing : w.Standing cfg) (homed : w.Homed cfg)
    (along : Along (step cfg) (fun w i => i.Internal ∧ w.step cfg i ≠ w) w inputs) :
    inputs.length ≤ w.work cfg := by
  induction inputs generalizing w with
  | nil => exact Nat.zero_le _
  | cons i rest ih =>
    obtain ⟨⟨internal, moving⟩, later⟩ := along
    have less := (step_less standing homed internal).resolve_left moving
    have intact : i ≠ .walFail := by
      rintro rfl
      exact internal
    have := ih (step_standing intact standing) (homed.move (standing.coherent.step_move intact)) later
    simp only [length_cons]
    omega

end Pipeline

end Roost.Nest
