import RoostCore.Nest.CompletionMeasure

/-! What the completion of transactions shows to the outside: the callbacks and replies come
in the order of the chains, nothing waits in a circle, and when no new transaction locks
anything every node is released after a bounded number of steps. -/
namespace Roost.Nest

open CompletionEvent List

namespace Pipeline

/-- The completion of `t` cannot go on before `u` does: `t` waits for the node of `u`, or
stands behind `u` at the pump or at a worker of the pool. -/
inductive WaitsFor (w : Pipeline) : Nat → Nat → Prop
  | order {t u : Nat} {e : Int} {rest : List Int} : (w.progress t).stage = .waiting (e :: rest) →
      w.chains.prev t e = some u → w.chains.closed u e = false → WaitsFor w t u
  | pump {t u : Nat} : [u, t].Sublist (w.pump.entries ++ w.queue) → WaitsFor w t u
  | pool {k t u : Nat} : [u, t].Sublist (w.pool k) → WaitsFor w t u

variable {cfg : CompletionConfig} {t u : Nat} {w w' : Pipeline} {e : Int}

theorem Standing.predecessor (standing : w.Standing cfg)
    (stage : (w.progress t).stage = .waiting (e :: rest)) (found : w.chains.prev t e = some u) :
    u ∈ line w.history e ∧ (w.progress u).stage.Settled ∧ key w.history u < key w.history t := by
  have sound := standing.coherent.sound t
  have trail : e :: rest <:+ (w.progress t).orders := by
    simpa [Progress.remaining, stage] using sound.formed.remaining
  have member := (sound.inLine e).mpr (trail.subset mem_cons_self)
  have before := ((standing.coherent.chained e).behind t u found member).1
  obtain ⟨settled, less⟩ := standing.draining.queued.ahead e t u before
  exact ⟨(Chains.mem_of_pair before).2, settled,
    less (by simp [stage, TxnStage.Settled, TxnStage.Holding])⟩

/-- A completion waits only for those that let go of their locks before it. -/
theorem WaitsFor.smaller (standing : w.Standing cfg) (waits : WaitsFor w t u) :
    key w.history u < key w.history t := by
  have queued := standing.draining.queued
  cases waits with
  | order stage found _ => exact (standing.predecessor stage found).2.2
  | pump before =>
    have sorted := queued.pumped.sublist before
    simpa using sorted
  | pool before =>
    have sorted := (queued.pooled _).sublist before
    simpa using sorted

theorem Standing.acyclic (standing : w.Standing cfg) : ¬Relation.TransGen (WaitsFor w) t t := by
  have smaller {t u : Nat} (path : Relation.TransGen (WaitsFor w) t u) :
      key w.history u < key w.history t := by
    induction path with
    | single waits => exact waits.smaller standing
    | tail _ waits ih => exact (waits.smaller standing).trans ih
  exact fun circle => absurd (smaller circle) (lt_irrefl _)

/-- Nothing moves any more: every ticket is done, every callback has returned. -/
def Quiescent (cfg : CompletionConfig) (w : Pipeline) : Prop :=
  ∀ i, Input.Internal i → w.step cfg i = w

section
variable (quiescent : w.Quiescent cfg)
include quiescent

theorem Quiescent.stage (t : Nat) (i : Input)
    (internal : Input.Internal i) :
    ((w.step cfg i).progress t).stage = (w.progress t).stage := by rw [quiescent i internal]

theorem Quiescent.not_holding : ¬(w.progress t).stage.Holding := by
  intro holding
  cases stage : (w.progress t).stage with
  | ordering es =>
    have same := quiescent.stage t (.order t) trivial
    cases es with
    | nil => simp [step, orderBehindAsyncCompletions, stage] at same
    | cons e rest =>
      simp only [step, orderBehindAsyncCompletions, stage] at same
      split at same <;> simp at same
  | handling =>
    have same := quiescent.stage t (.handle t .rejected) trivial
    simp only [step, handle, stage, ↓reduceIte] at same
    split at same <;> simp [settle, log] at same
  | enqueued =>
    have same := quiescent.stage t (.link t) trivial
    simp only [step, linkCompletion, stage] at same
    split at same <;> simp [settle, log] at same
  | counted =>
    have same := quiescent.stage t (.link t) trivial
    simp [step, linkCompletion, stage] at same
  | linked =>
    have same := quiescent.stage t (.submit t) trivial
    simp only [step, submit, stage, ↓reduceIte] at same
    split at same <;> simp [settle, log] at same
  | _ =>
    rw [stage] at holding
    exact holding

section
variable (standing : w.Standing cfg)
include standing

theorem Quiescent.durable
    (ticket : (w.progress t).ticket = some lsn) : w.ticketDone lsn = some true := by
  have all : w.durableLSN = w.nextLSN := by
    have same := congrArg Pipeline.durableLSN (quiescent (.sync w.nextLSN) trivial)
    simpa [step, sync, standing.coherent.intact, standing.draining.synced, eq_comm] using same
  have issued := (standing.draining.ready t).issued lsn ticket
  simp [ticketDone, all, issued]

/-- With no smaller transaction under way, the completion has a goroutine. -/
theorem Quiescent.running (stage : (w.progress t).stage = .waiting orders)
    (least : ∀ u, key w.history u < key w.history t → (w.progress u).stage.Settled →
      (w.progress u).stage = .ended) : w.Running cfg t := by
  have queued := standing.draining.queued
  by_cases deferred : (w.progress t).deferred = true
  · have forward (u : Nat) (pump : w.pump = .waiting u) : False := by
      have handed := (queued.handed u (.inl (by simp [pump, PumpStage.entries]))).2
      obtain ⟨lsn, ticket⟩ := (standing.draining.ready u).ticketed (.inl handed)
      have same := congrArg Pipeline.pump (quiescent (.pumpForward true) trivial)
      simp [step, pumpForward, pump, ticket, quiescent.durable standing ticket] at same
    rcases queued.placed t deferred (by simp [stage]) with member | member
    · cases pump : w.pump with
      | idle =>
        cases queue : w.queue with
        | nil => simp [pump, queue, PumpStage.entries] at member
        | cons u rest =>
          have same := congrArg Pipeline.pump (quiescent .pumpTake trivial)
          simp [step, pumpTake, pump, queue] at same
      | waiting u => exact (forward u pump).elim
      | running u =>
        by_cases here : u = t
        · exact .inr (.inl (here ▸ pump))
        -- the completion that the pump runs is smaller, so it has ended
        have sorted := queued.pumped
        have settled := (queued.handed u (.inl (by simp [pump, PumpStage.entries]))).1
        simp only [pump, PumpStage.entries, singleton_append, pairwise_cons] at sorted member
        have past := least u (sorted.1 t ((mem_cons.mp member).resolve_left (Ne.symm here))) settled
        have same := congrArg Pipeline.pump (quiescent .pumpNext trivial)
        simp [step, pumpNext, pump, past] at same
    · cases tasks : w.pool (cfg.worker (cfg.txns t).first) with
      | nil => simp [tasks] at member
      | cons u rest =>
        by_cases here : u = t
        · exact .inr (.inr (by simp [tasks, here]))
        have sorted := queued.pooled (cfg.worker (cfg.txns t).first)
        have settled := (queued.handed u (.inr ⟨_, tasks ▸ mem_cons_self⟩)).1
        rw [tasks] at sorted member
        rw [pairwise_cons] at sorted
        have past := least u (sorted.1 t ((mem_cons.mp member).resolve_left (Ne.symm here))) settled
        have same := congrArg (fun w => w.pool (cfg.worker (cfg.txns t).first))
          (quiescent (.workerNext (cfg.worker (cfg.txns t).first)) trivial)
        simp [step, workerNext, tasks, past] at same
  · exact .inl (by simpa using deferred)

/-- When nothing moves any more, every transaction that let go of its locks has ended: the
least one that has not could move. -/
theorem Quiescent.ended
    (settled : (w.progress t).stage.Settled) : (w.progress t).stage = .ended := by
  induction bound : key w.history t using Nat.strong_induction_on generalizing t with
  | _ n ih =>
    have least (u : Nat) (less : key w.history u < key w.history t) (late : (w.progress u).stage.Settled) :
        (w.progress u).stage = .ended := ih _ (bound ▸ less) late rfl
    cases stage : (w.progress t).stage with
    | ended => rfl
    | releasing =>
      by_cases free : ∀ e ∈ (cfg.txns t).es, w.owner e ≠ some t
      · have same := quiescent.stage t (.unlocked t) trivial
        simp only [step, unlocked, stage, true_and, if_pos free, goto_progress] at same
        split at same <;> simp at same
      · push Not at free
        obtain ⟨e, -, owned⟩ := free
        have same := congrArg (fun w => w.owner e) (quiescent (.unlock t e) trivial)
        simp [step, unlock, stage, owned, log] at same
    | durable =>
      obtain ⟨lsn, ticket⟩ := (standing.draining.ready t).ticketed (.inr (.inl stage))
      have same := quiescent.stage t (.ticket t) trivial
      simp [step, waitTicket, stage, ticket, quiescent.durable standing ticket] at same
    | waiting orders =>
      have running := quiescent.running standing stage least
      have same := quiescent.stage t (.await t) trivial
      cases orders with
      | nil =>
        by_cases remote : (cfg.txns t).route = .remote <;> simp [step, await, stage, running, remote] at same
      | cons e rest =>
        have awaited : w.chains.Awaited t e := by
          intro u found
          obtain ⟨member, late, less⟩ := standing.predecessor stage found
          have past := least u less late
          have other := standing.coherent.sound u
          exact (other.closed e).mpr ⟨(other.inLine e).mp member, by simp [Progress.opened, past]⟩
        simp [step, await, stage, running, awaited] at same
    | callbacks =>
      have same := quiescent.stage t (.afterCommit t false) trivial
      simp only [step, Pipeline.afterCommit, stage, ↓reduceIte] at same
      cases route : (cfg.txns t).route <;>
        by_cases due : (w.progress t).committed = true <;> simp [afterCallbacks, route, due, log] at same
    | replying =>
      have same := quiescent.stage t (.reply t) trivial
      by_cases async : (cfg.txns t).route = .async <;> simp [step, reply, stage, async, log] at same
    | closing orders =>
      have same := quiescent.stage t (.release t) trivial
      cases orders with
      | nil => cases route : (cfg.txns t).route <;> simp [step, release, stage, route] at same
      | cons e rest => simp [step, release, stage, log] at same
    | unchaining orders =>
      have same := quiescent.stage t (.release t) trivial
      cases orders with
      | nil => exact absurd stage (standing.draining.ready t).unchaining
      | cons e rest =>
        by_cases async : (cfg.txns t).route = .async <;> simp [step, release, stage, async] at same
    | uncounting orders =>
      have same := quiescent.stage t (.release t) trivial
      simp [step, release, stage, log] at same
    | locking => exact absurd stage settled.1
    | _ =>
      rw [stage] at settled
      exact absurd trivial settled.2

theorem Quiescent.released (linked : .linked t e ∈ w.history) : .released t e ∈ w.history := by
  have sound := standing.coherent.sound t
  have node := (sound.inLine e).mp (CompletionEvent.mem_line.mpr linked)
  have past : (w.progress t).stage = .ended := by
    refine quiescent.ended standing ⟨fun first => ?_, quiescent.not_holding⟩
    simp [sound.formed.fresh first] at node
  rw [(standing.recorded.told t).released, sound.closed]
  exact ⟨node, by simp [Progress.opened, past]⟩

end

end

end Pipeline

namespace CompletionEvent

/-- What the callers of a transaction see of it. -/
def Shows (t : Nat) (event : CompletionEvent) : Prop := event = .afterCommit t ∨ ∃ ok, event = .replied t ok

variable {cfg : CompletionConfig} {history later older : List CompletionEvent} {event : CompletionEvent}
  {t u : Nat} {e : Int}

/-- A later event was permitted when all the older ones were there. -/
theorem Orderly.among (orderly : Orderly cfg (later ++ older)) (member : event ∈ later) :
    ∃ before, Permitted cfg before event ∧ older ⊆ before := by
  obtain ⟨newer, middle, rfl⟩ := append_of_mem member
  have split : newer ++ event :: middle ++ older = newer ++ event :: (middle ++ older) := by simp
  exact ⟨middle ++ older, orderly.at split, subset_append_right ..⟩

/-- After its reply a transaction shows no other reply and, unless a Remote batch has kept
them, no callbacks. -/
theorem Orderly.last (orderly : Orderly cfg (later ++ older)) (replied : .replied u ok ∈ older) :
    (∀ ok, .replied u ok ∉ later) ∧ ((cfg.txns u).route ≠ .remote → .afterCommit u ∉ later) := by
  constructor
  · intro ok' again
    obtain ⟨before, permitted, kept⟩ := orderly.among again
    exact permitted.2.1 ok (kept replied)
  · intro route again
    obtain ⟨before, permitted, kept⟩ := orderly.among again
    exact permitted.2.2.1 route ok (kept replied)

/-- Everything that a transaction shows comes after it has entered its chains. -/
theorem Orderly.entered (orderly : Orderly cfg history) (split : history = later ++ event :: older)
    (shows : Shows t event) (earlier : [t, u].Sublist (line history e)) :
    [t, u].Sublist (line older e) := by
  have settled : .settled t ∈ older := by
    have permitted := orderly.at split
    rcases shows with rfl | ⟨ok, rfl⟩
    · exact permitted.1
    · exact permitted.1
  have parts : history = (later ++ [event]) ++ older := by simp [split]
  rw [parts] at orderly earlier
  have outside : .linked t e ∉ later ++ [event] := by
    intro late
    obtain ⟨before, permitted, kept⟩ := orderly.among late
    exact permitted.2.2 (kept settled)
  rw [line_append] at earlier
  obtain ⟨front, back, both, first, last⟩ := sublist_append_iff.mp earlier
  cases front with
  | nil =>
    obtain rfl : [t, u] = back := by simpa using both
    exact last
  | cons v front =>
    obtain rfl : t = v := (cons.inj both).1
    exact absurd (CompletionEvent.mem_line.mp (first.subset mem_cons_self)) outside

/-- A transaction that entered the chain of an entity and let go of its lock was in the chain
when the next one took the lock. -/
theorem Orderly.seen_of_unlocked (orderly : Orderly cfg history) (linked : .linked u e ∈ history)
    (split : history = later ++ .locked t e :: older) (unlocked : .unlocked u e ∈ older) :
    u ∈ seen history t e := by
  have before : .linked u e ∈ older := by
    subst split
    rcases mem_append.mp linked with late | late
    · obtain ⟨before, permitted, kept⟩ := orderly.among late
      exact absurd (kept (mem_cons_of_mem _ unlocked)) permitted.2.1
    · exact (mem_cons.mp late).resolve_left nofun
  subst split
  clear linked
  induction later with
  | nil => simpa [seen] using CompletionEvent.mem_line.mpr before
  | cons first later ih =>
    have rest := ih orderly.2
    by_cases same : first = .locked t e
    · subst same
      exact absurd (mem_append_right _ mem_cons_self) orderly.1.1
    cases first with
    | locked t' e' =>
      have : ¬(t' = t ∧ e' = e) := by
        rintro ⟨rfl, rfl⟩
        exact same rfl
      simpa [seen, this] using rest
    | _ => exact rest

end CompletionEvent

namespace Pipeline

variable {cfg : CompletionConfig} {t u : Nat} {w : Pipeline} {e : Int} {later older : List CompletionEvent}

theorem seen_stable (orderly : Orderly cfg (later ++ older)) (locked : .locked t e ∈ older) :
    seen (later ++ older) t e = seen older t e := by
  induction later with
  | nil => rfl
  | cons first later ih =>
    have rest := ih orderly.2
    cases first with
    | locked t' e' =>
      have : ¬(t' = t ∧ e' = e) := by
        rintro ⟨rfl, rfl⟩
        exact orderly.1.1 (mem_append_right _ locked)
      simpa [seen, this] using rest
    | _ => exact rest

/-- Whatever a transaction shows comes after all that those linked before it show. -/
theorem Standing.link_order (standing : w.Standing cfg)
    (earlier : [t, u].Sublist (line w.history e)) (shows : Shows t event)
    (split : w.history = later ++ event :: older) :
    (∃ ok, .replied u ok ∈ older) ∧ (∀ ok, .replied u ok ∉ later) ∧
      ((cfg.txns u).route ≠ .remote → .afterCommit u ∉ later) := by
  have orderly := standing.recorded.orderly
  have before := orderly.entered split shows earlier
  have past : Over older u e := by
    have permitted := orderly.at split
    rcases shows with rfl | ⟨ok, rfl⟩
    · exact permitted.2.2.2 e u before
    · exact permitted.2.2.1 e u before
  obtain ⟨ok, replied⟩ := past.2
  rw [split] at orderly
  exact ⟨⟨ok, replied⟩, orderly.last (mem_cons_of_mem event replied)⟩

/-- An ordinary transaction replies after the asynchronous ones that had let go of an entity
that it declares. -/
theorem Standing.behind_async (standing : w.Standing cfg) (ordinary : (cfg.txns t).route.Ordinary)
    (declared : e ∈ (cfg.txns t).es) (async : (cfg.txns u).route = .async)
    (linked : .linked u e ∈ w.history) (taken : w.history = newer ++ .locked t e :: past)
    (free : .unlocked u e ∈ past) (split : w.history = later ++ .replied t ok :: older) :
    Over older u e := by
  have orderly := standing.recorded.orderly
  have permitted := orderly.at split
  have member := orderly.seen_of_unlocked linked taken free
  -- the lock was taken before the reply, so the reply looks at the same chain
  have locked : .locked t e ∈ older := by
    have inside : .locked t e ∈ later ++ .replied t ok :: older := by
      rw [← split, taken]
      exact mem_append_right _ mem_cons_self
    rcases mem_append.mp inside with late | late
    · obtain ⟨before, allowed, kept⟩ := (split ▸ orderly).among late
      exact absurd (kept (mem_cons_of_mem _ permitted.1)) allowed.2
    · exact (mem_cons.mp late).resolve_left nofun
  have parts : w.history = (later ++ [.replied t ok]) ++ older := by simp [split]
  rw [parts] at orderly member
  rw [seen_stable orderly locked] at member
  exact permitted.2.2.2 ordinary e declared u member async

theorem init_homed : init.Homed cfg := nofun

theorem run_homed (intact : ∀ i ∈ inputs, i ≠ .walFail) :
    (run (step cfg) init inputs).Homed cfg := by
  have along : Along (step cfg) (fun _ i => i ≠ .walFail) init inputs := along_of_forall intact
  have both : (run (step cfg) init inputs).Standing cfg ∧ (run (step cfg) init inputs).Homed cfg :=
    invariant_along (P := fun w => w.Standing cfg ∧ w.Homed cfg)
      (fun _ _ intact both => ⟨step_standing intact both.1, both.2.move (both.1.coherent.step_move intact)⟩)
      ⟨⟨init_coherent, init_served, init_recorded, init_draining⟩, init_homed⟩ along
  exact both.2

/-- Whatever the schedule of the jobs, the goroutines and the WAL. What a transaction shows, its
AfterCommit callbacks and its reply, comes after the replies of all that entered one of its
chains before it, and after their callbacks unless these are with a Remote batch. An
ordinary transaction replies after the completion of every asynchronous one that had let go
of an entity that it declares. No node is released twice, no completions wait in a circle,
and the completions come to an end by themselves, every node then being released once. -/
theorem completions_in_link_order (cfg : CompletionConfig) (inputs : List Input)
    (intact : ∀ i ∈ inputs, i ≠ .walFail) :
    (∀ e t u event later older, [t, u].Sublist (line (run (step cfg) init inputs).history e) → Shows t event →
      (run (step cfg) init inputs).history = later ++ event :: older →
        (∃ ok, .replied u ok ∈ older) ∧ (∀ ok, .replied u ok ∉ later) ∧
          ((cfg.txns u).route ≠ .remote → .afterCommit u ∉ later)) ∧
    (∀ e t u newer past later older ok, (cfg.txns t).route.Ordinary → e ∈ (cfg.txns t).es →
      (cfg.txns u).route = .async → .linked u e ∈ (run (step cfg) init inputs).history →
      (run (step cfg) init inputs).history = newer ++ .locked t e :: past → .unlocked u e ∈ past →
      (run (step cfg) init inputs).history = later ++ .replied t ok :: older → Over older u e) ∧
    (∀ t e, (run (step cfg) init inputs).history.count (.released t e) ≤ 1) ∧
    (∀ t, ¬Relation.TransGen (WaitsFor (run (step cfg) init inputs)) t t) ∧
    ∀ more, Along (step cfg) (fun w i => i.Internal ∧ w.step cfg i ≠ w) (run (step cfg) init inputs) more →
      more.length ≤ (run (step cfg) init inputs).work cfg ∧
        (Quiescent cfg (run (step cfg) init (inputs ++ more)) →
          ∀ t e, .linked t e ∈ (run (step cfg) init (inputs ++ more)).history →
            (run (step cfg) init (inputs ++ more)).history.count (.released t e) = 1) := by
  have standing : (run (step cfg) init inputs).Standing cfg := run_standing intact
  refine ⟨fun e t u event later older earlier shows split => standing.link_order earlier shows split,
    fun e t u newer past later older ok ordinary declared async linked taken free split =>
      standing.behind_async ordinary declared async linked taken free split,
    fun t e => standing.recorded.orderly.released_once, fun t => standing.acyclic, fun more along => ?_⟩
  refine ⟨internal_bounded standing (run_homed intact) along, fun quiescent t e linked => ?_⟩
  have after : (run (step cfg) init (inputs ++ more)).Standing cfg := by
    rw [run_append]
    exact invariant_along (fun _ i moving standing => step_standing (fun same => by
      subst same
      exact moving.1) standing) standing along
  have released := quiescent.released after linked
  have once := after.recorded.orderly.released_once (t := t) (e := e)
  have some := count_pos_iff.mpr released
  omega

/-- One entity and three transactions on it: an asynchronous one, one with a Remote batch and
one of phase one. -/
def threeOnOne : CompletionConfig where
  txns
    | 0 => ⟨.async, 1, []⟩
    | 1 => ⟨.remote, 1, []⟩
    | _ => ⟨.phaseOne, 1, []⟩
  queueCap := 4
  worker := fun _ => 0

/-- The Remote batch of the second transaction gets its outcome after the third is through. -/
def lateOutcome : List Input :=
  [.dispatch 0, .lock 0 1, .start 0, .handle 0 .recorded, .link 0, .link 0, .submit 0, .unlock 0 1, .unlocked 0,
    .dispatch 1, .lock 1 1, .start 1, .order 1, .order 1, .handle 1 .recorded, .unlock 1 1, .unlocked 1,
    .sync 1, .pumpTake, .pumpForward false, .await 0, .await 0, .afterCommit 0 false, .reply 0,
    .release 0, .release 0, .release 0, .release 0,
    .await 1, .await 1, .release 1, .release 1, .release 1, .postpone 1, .reply 1,
    .dispatch 2, .lock 2 1, .start 2, .handle 2 .recorded, .link 2, .unlock 2 1, .unlocked 2, .sync 2, .ticket 2,
    .await 2, .await 2, .afterCommit 2 false, .conclude 1]

/-- The callbacks of the third come after the reply of the second, and that after the
completion of the first. -/
theorem completions_in_link_order_lateOutcome : (∀ i ∈ lateOutcome, i ≠ .walFail) ∧
    (∃ ok, .replied 1 ok ∈ (run (step threeOnOne) init lateOutcome).history.drop 2) ∧
    Over ((run (step threeOnOne) init lateOutcome).history.drop 7) 0 1 := by
  obtain ⟨inLine, behindAsync, -⟩ := completions_in_link_order threeOnOne lateOutcome (by decide)
  refine ⟨by decide, (inLine 1 2 1 (.afterCommit 2) [.afterCommit 1] _ ?_ (.inl rfl) ?_).1,
    behindAsync 1 1 0 ((run (step threeOnOne) init lateOutcome).history.take 15)
      ((run (step threeOnOne) init lateOutcome).history.drop 16)
      ((run (step threeOnOne) init lateOutcome).history.take 6) _ false ?_ ?_ rfl ?_ ?_ ?_ ?_⟩
  all_goals decide +kernel

/-- The callbacks that wait for the outcome of a Remote batch come out of order. -/
theorem remote_callbacks_overtaken : (∀ i ∈ lateOutcome, i ≠ .walFail) ∧
    [2, 1].Sublist (line (run (step threeOnOne) init lateOutcome).history 1) ∧
    (run (step threeOnOne) init lateOutcome).history =
      [.afterCommit 1] ++ .afterCommit 2 :: (run (step threeOnOne) init lateOutcome).history.drop 2 := by
  decide +kernel

end Pipeline

end Roost.Nest
