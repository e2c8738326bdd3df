import RoostCore.Nest.CompletionOrder

/-! What a step of the pipeline can do. The facts that the invariant gives about a step stand
with it, so that nothing below looks at the step functions again. -/
namespace Roost.Nest.Pipeline

open CompletionEvent List Function

variable {cfg : CompletionConfig} {t : Nat} {w : Pipeline} {e : Int}

/-- The transaction goes on, with at most one event. -/
def stride (w : Pipeline) (t : Nat) (p : Progress) (event : Option CompletionEvent) (next : Nat) : Pipeline :=
  { w.put t p with history := event.toList ++ w.history, nextLSN := next }

/-- The strides that leave the locks, the chains and the counters alone. -/
inductive Stride (cfg : CompletionConfig) (w : Pipeline) (t : Nat) :
    Progress → Option CompletionEvent → Nat → Prop
  | start (stage : (w.progress t).stage = .locking) (owned : ∀ e ∈ (cfg.txns t).es, w.owner e = some t) :
      Stride cfg w t { w.progress t with
        stage := if (cfg.txns t).route.Ordinary then .ordering (cfg.txns t).es else .handling } none w.nextLSN
  | skip {e : Int} {rest : List Int} (stage : (w.progress t).stage = .ordering (e :: rest))
      (idle : w.asyncCompletionPending e = false ∨ e ∈ (w.progress t).orders) :
      Stride cfg w t { w.progress t with stage := .ordering rest } none w.nextLSN
  | ordered (stage : (w.progress t).stage = .ordering []) :
      Stride cfg w t { w.progress t with stage := .handling } none w.nextLSN
  | enqueue (stage : (w.progress t).stage = .handling) (pipelined : ¬(cfg.txns t).route.Ordinary) :
      Stride cfg w t { w.progress t with committed := true, ticket := some w.nextLSN, stage := .enqueued } none
        (w.nextLSN + 1)
  | unlocked (stage : (w.progress t).stage = .releasing) (free : ∀ e ∈ (cfg.txns t).es, w.owner e ≠ some t) :
      Stride cfg w t { w.progress t with
        stage := if (w.progress t).ticket.isSome ∧ (w.progress t).deferred = false then .durable
          else .waiting (w.progress t).orders } none w.nextLSN
  | durable (stage : (w.progress t).stage = .durable) :
      Stride cfg w t { w.progress t with stage := .waiting (w.progress t).orders } none w.nextLSN
  | awaited {e : Int} {rest : List Int} (stage : (w.progress t).stage = .waiting (e :: rest))
      (passed : w.chains.Awaited t e) :
      Stride cfg w t { w.progress t with stage := .waiting rest } none w.nextLSN
  | ready (stage : (w.progress t).stage = .waiting []) :
      Stride cfg w t { w.progress t with
        stage := if (cfg.txns t).route = .remote then .closing (w.progress t).orders else .callbacks } none w.nextLSN
  | called (event : Option CompletionEvent) (failed : Bool) (stage : (w.progress t).stage = .callbacks)
      (run : event = none ∨ event = some (.afterCommit t)) :
      Stride cfg w t { w.progress t with failed, stage := w.afterCallbacks cfg t } event w.nextLSN
  | postponed (stage : (w.progress t).stage = .callbacks) (remote : (cfg.txns t).route = .remote) :
      Stride cfg w t { w.progress t with failed := true, stage := .replying } none w.nextLSN
  | replied (ok : Bool) (stage : (w.progress t).stage = .replying) :
      Stride cfg w t { w.progress t with
        stage := if (cfg.txns t).route = .async then .closing (w.progress t).orders else .ended }
        (some (.replied t ok)) w.nextLSN
  | closed (stage : (w.progress t).stage = .closing []) :
      Stride cfg w t { w.progress t with
        stage := match (cfg.txns t).route with
          | .async => .ended
          | .remote => .callbacks
          | .ordinary | .phaseOne => .replying } none w.nextLSN

namespace Stride

variable {p : Progress} {event : Option CompletionEvent} {next : Nat}

section
variable (stride : Stride cfg w t p event next)
include stride

theorem orders : p.orders = (w.progress t).orders := by
  cases stride <;> rfl

theorem deferred : p.deferred = (w.progress t).deferred := by
  cases stride <;> rfl

theorem silent (x : CompletionEvent) (shown : x ∈ event) :
    x = .afterCommit t ∨ ∃ ok, x = .replied t ok := by
  cases stride with
  | called event failed stage run =>
    rcases run with rfl | rfl
    · cases shown
    · exact .inl (Option.mem_some.mp shown).symm
  | replied ok => exact .inr ⟨ok, (Option.mem_some.mp shown).symm⟩
  | _ => cases shown

theorem line (e : Int) : line (w.stride t p event next).history e = line w.history e := by
  cases stride <;> grind [Pipeline.stride, CompletionEvent.line]

theorem seen (u : Nat) (e : Int) : seen (w.stride t p event next).history u e = seen w.history u e := by
  cases stride <;> grind [Pipeline.stride, CompletionEvent.seen]

theorem countedIn : countedIn (w.stride t p event next).history = countedIn w.history := by
  cases stride <;> grind [Pipeline.stride, CompletionEvent.countedIn]

theorem started : (w.progress t).stage ≠ .locking ∨ ∃ e, w.owner e = some t := by
  cases stride with
  | start _ owned => exact .inr ⟨_, owned _ mem_cons_self⟩
  | _ => simp_all

theorem opened (e : Int) :
    e ∈ p.opened (cfg.txns t).route ↔ e ∈ (w.progress t).opened (cfg.txns t).route := by
  cases stride <;> grind [Progress.opened, afterCallbacks]

theorem unawaited (e : Int) (node : e ∈ (w.progress t).orders) (passed : e ∉ p.unawaited) :
    e ∉ (w.progress t).unawaited ∨ w.chains.Awaited t e := by
  cases stride <;> grind [Progress.unawaited, afterCallbacks]

theorem counting : p.Counting (cfg.txns t).route ↔ (w.progress t).Counting (cfg.txns t).route := by
  cases stride <;> grind [Progress.Counting, afterCallbacks]

theorem holds (holds : (w.progress t).stage.Holding → ∀ e ∈ (cfg.txns t).es, w.owner e = some t)
    (holding : p.stage.Holding) : ∀ e ∈ (cfg.txns t).es, w.owner e = some t := by
  cases stride <;> grind [TxnStage.Holding, afterCallbacks]

theorem locked (declared : e ∈ (cfg.txns t).es) (owned : w.owner e = some t) (locked : (w.progress t).stage.Locked) :
    p.stage.Locked := by
  cases stride <;> grind [TxnStage.Locked, TxnStage.Holding, afterCallbacks]

theorem checked (ordinary : (cfg.txns t).route.Ordinary) (looked : e ∉ p.unchecked (cfg.txns t)) :
    e ∉ (w.progress t).unchecked (cfg.txns t) ∨
      (w.progress t).stage.Holding ∧ (w.asyncCompletionPending e = false ∨ e ∈ (w.progress t).orders) := by
  cases stride <;> grind [Progress.unchecked, TxnStage.Holding, afterCallbacks]

theorem formed (formed : (w.progress t).Formed (cfg.txns t)) : p.Formed (cfg.txns t) := by
  obtain ⟨nodup, declared, fresh, unlinked, single, pipelined, asynchronous, ordering, remaining, last⟩ := formed
  cases stride <;> constructor
  case awaited.remaining e rest stage _ =>
    rw [Progress.remaining, stage] at remaining
    exact (suffix_cons e rest).trans remaining
  all_goals grind [Progress.remaining, afterCallbacks]

end

end Stride

/-- The stages in which a transaction enters a chain, and where it goes from there. -/
inductive Enter (cfg : CompletionConfig) (w : Pipeline) (t : Nat) (e : Int) : TxnStage → Prop
  | ordering {rest : List Int} (stage : (w.progress t).stage = .ordering (e :: rest))
      (new : e ∉ (w.progress t).orders) : Enter cfg w t e (.ordering rest)
  | async (stage : (w.progress t).stage = .counted) (first : e = (cfg.txns t).first) : Enter cfg w t e .linked
  | phaseOne (stage : (w.progress t).stage = .enqueued) (first : e = (cfg.txns t).first)
      (other : (cfg.txns t).route ≠ .async) : Enter cfg w t e .releasing

namespace Enter

variable {stage : TxnStage} (enter : Enter cfg w t e stage)
include enter

theorem holding : (w.progress t).stage.Holding := by
  cases enter <;> simp_all [TxnStage.Holding]

theorem locked : stage.Locked := by
  cases enter <;> trivial

theorem declared (formed : (w.progress t).Formed (cfg.txns t)) : e ∈ (cfg.txns t).es := by
  cases enter with
  | ordering stage => exact (formed.ordering _ stage).2 e mem_cons_self
  | async _ first | phaseOne _ first => exact first ▸ mem_cons_self

theorem owned (sound : w.Sound cfg t) : w.owner e = some t :=
  sound.holds enter.holding e (enter.declared sound.formed)

theorem new (formed : (w.progress t).Formed (cfg.txns t)) : e ∉ (w.progress t).orders := by
  obtain ⟨_, _, _, unlinked, _, pipelined, _⟩ := formed
  cases enter <;> grind

theorem formed (formed : (w.progress t).Formed (cfg.txns t)) :
    { w.progress t with stage, orders := (w.progress t).orders ++ [e] }.Formed (cfg.txns t) := by
  have declared := enter.declared formed
  have new := enter.new formed
  have nodup := formed.nodup.append (nodup_singleton e) (by simpa using new)
  obtain ⟨-, members, fresh, unlinked, single, pipelined, asynchronous, ordering, remaining, last⟩ := formed
  cases enter <;> constructor <;> grind [Progress.remaining]

theorem opened_before : (w.progress t).opened (cfg.txns t).route = (w.progress t).orders := by
  cases enter <;> simp_all [Progress.opened]

theorem opened : { w.progress t with stage, orders := (w.progress t).orders ++ [e] }.opened (cfg.txns t).route =
    (w.progress t).orders ++ [e] := by
  cases enter <;> rfl

theorem unawaited : { w.progress t with stage, orders := (w.progress t).orders ++ [e] }.unawaited =
    (w.progress t).orders ++ [e] := by
  cases enter <;> rfl

theorem checked (other : Int) (looked : other ∉
    { w.progress t with stage, orders := (w.progress t).orders ++ [e] }.unchecked (cfg.txns t)) :
    other = e ∨ other ∉ (w.progress t).unchecked (cfg.txns t) := by
  cases enter <;> grind [Progress.unchecked]

theorem counting (formed : (w.progress t).Formed (cfg.txns t)) :
    { w.progress t with stage, orders := (w.progress t).orders ++ [e] }.Counting (cfg.txns t).route ↔
      (w.progress t).Counting (cfg.txns t).route := by
  obtain ⟨_, _, _, _, _, _, _, ordering, _, _⟩ := formed
  cases enter <;> grind [Progress.Counting, CommitRoute.Ordinary]

end Enter


inductive Move (cfg : CompletionConfig) (w : Pipeline) : Input → Pipeline → Prop
  | idle (i : Input) : Move cfg w i w
  | dispatch (t : Nat) (fresh : t ∉ w.jobs)
      (ended : ∀ u ∈ w.jobs, (∃ e ∈ (cfg.txns t).es, e ∈ (cfg.txns u).es) → w.Returned u) :
      Move cfg w (.dispatch t) { w with jobs := t :: w.jobs }
  | lock (t : Nat) (e : Int) (job : t ∈ w.jobs) (stage : (w.progress t).stage = .locking)
      (declared : e ∈ (cfg.txns t).es) (free : w.owner e = none) :
      Move cfg w (.lock t e) ({ w with owner := update w.owner e (some t) }.log (.locked t e))
  | stride (i : Input) {t : Nat} {p : Progress} {event : Option CompletionEvent} {next : Nat}
      (stride : Stride cfg w t p event next) : Move cfg w i (w.stride t p event next)
  | postpone (t : Nat) {p : Progress} (stride : Stride cfg w t p none w.nextLSN)
      (stage : (w.progress t).stage = .callbacks) (remote : (cfg.txns t).route = .remote) (next : p.stage = .replying) :
      Move cfg w (.postpone t) { w.stride t p none w.nextLSN with batches := t :: w.batches }
  | settle (i : Input) {t : Nat} {p : Progress}
      (stage : (w.progress t).stage = .handling ∨ (w.progress t).stage = .linked)
      (orders : p.orders = (w.progress t).orders) (ticket : p.ticket = (w.progress t).ticket)
      (deferred : p.deferred = (w.progress t).deferred) : Move cfg w i ((w.put t p).settle t)
  | submit (t : Nat) (stage : (w.progress t).stage = .linked) :
      Move cfg w (.submit t)
        (({ w with queue := w.queue ++ [t] }.put t { w.progress t with deferred := true }).settle t)
  | link (i : Input) {t : Nat} {e : Int} {stage : TxnStage} (enter : Enter cfg w t e stage)
      (holding : stage.Holding) : Move cfg w i ((w.link t e).goto t stage)
  | phaseOne (t : Nat) (enter : Enter cfg w t (cfg.txns t).first .releasing) :
      Move cfg w (.link t) ((w.link t (cfg.txns t).first).settle t)
  | count (t : Nat) (stage : (w.progress t).stage = .enqueued) (async : (cfg.txns t).route = .async) :
      Move cfg w (.link t) (({ w with
        asyncPending := update w.asyncPending (pendingShard (cfg.txns t).first)
          (w.asyncPending (pendingShard (cfg.txns t).first) + 1) }.goto t .counted).log (.counted t))
  | unlock (t : Nat) (e : Int) (stage : (w.progress t).stage = .releasing) (owned : w.owner e = some t) :
      Move cfg w (.unlock t e) ({ w with owner := update w.owner e none }.log (.unlocked t e))
  | conclude (t : Nat) (member : t ∈ w.batches) :
      Move cfg w (.conclude t) ({ w with batches := w.batches.filter (· ≠ t) }.log (.afterCommit t))
  | close (t : Nat) {e : Int} {rest : List Int} (stage : (w.progress t).stage = .closing (e :: rest)) :
      Move cfg w (.release t) (({ w with chains := w.chains.close t e }.goto t (.unchaining (e :: rest))).log
        (.released t e))
  | drop (t : Nat) {e : Int} {rest : List Int} (stage : (w.progress t).stage = .unchaining (e :: rest)) :
      Move cfg w (.release t)
        { w.goto t (if (cfg.txns t).route = .async then .uncounting rest else .closing rest) with
          chains := w.chains.drop t e }
  | uncount (t : Nat) (stage : (w.progress t).stage = .uncounting []) :
      Move cfg w (.release t) (({ w with
        asyncPending := update w.asyncPending (pendingShard (cfg.txns t).first)
          (w.asyncPending (pendingShard (cfg.txns t).first) - 1) }.goto t (.closing [])).log (.uncounted t))
  | pumpTake {t : Nat} {rest : List Nat} (pump : w.pump = .idle) (queue : w.queue = t :: rest) :
      Move cfg w .pumpTake { w with pump := .waiting t, queue := rest }
  | pumpForward {t : Nat} (rejected : Bool) (committed : Bool) (pump : w.pump = .waiting t) :
      Move cfg w (.pumpForward rejected)
        (if rejected then { w.put t { w.progress t with committed } with pump := .running t }
          else
            { w.put t { w.progress t with committed } with
              pump := .idle
              pool := update w.pool (cfg.worker (cfg.txns t).first)
                (w.pool (cfg.worker (cfg.txns t).first) ++ [t]) })
  | pumpNext {t : Nat} (pump : w.pump = .running t) (past : (w.progress t).stage = .ended) :
      Move cfg w .pumpNext { w with pump := .idle }
  | workerNext (worker : Nat) {t : Nat} {rest : List Nat} (tasks : w.pool worker = t :: rest)
      (past : (w.progress t).stage = .ended) :
      Move cfg w (.workerNext worker) { w with pool := update w.pool worker rest }
  | sync (lsn : Nat) (later : w.durableLSN ≤ lsn) (issued : lsn ≤ w.nextLSN) :
      Move cfg w (.sync lsn) { w with durableLSN := lsn }
  | stop : Move cfg w .stop { w with closed := true }

@[simp] theorem stride_progress : (w.stride t p event new).progress t = p := put_progress

theorem put_self : w.put t (w.progress t) = w := by simp [put]

theorem settle_self : w.settle t = (w.put t (w.progress t)).settle t := by rw [put_self]

theorem guarded_move {guard : Prop} [Decidable guard] (move : guard → Move cfg w i w') :
    Move cfg w i (if guard then w' else w) := by
  split
  · exact move ‹_›
  · exact .idle i

theorem order_move : Move cfg w (.order t) (w.orderBehindAsyncCompletions t) := by
  unfold orderBehindAsyncCompletions
  split
  · rename_i e rest stage
    split
    · rename_i idle
      exact .stride _ (.skip stage idle)
    · rename_i linking
      exact .link _ (.ordering stage (not_or.mp linking).2) trivial
  · rename_i stage
    exact .stride _ (.ordered stage)
  · exact .idle _

theorem linkCompletion_move : Move cfg w (.link t) (w.linkCompletion cfg t) := by
  unfold linkCompletion
  split
  · rename_i stage
    split
    · rename_i async
      exact .count t stage async
    · rename_i phaseOne
      exact .phaseOne t (.phaseOne stage rfl phaseOne)
  · rename_i stage
    exact .link _ (.async stage rfl) trivial
  · exact .idle _

theorem waitTicket_move (coherent : w.Coherent cfg) : Move cfg w (.ticket t) (w.waitTicket cfg t) := by
  refine guarded_move fun stage => ?_
  split
  · exact .idle _
  · exact .stride _ (.durable stage)
  -- a ticket fails only with the WAL
  rename_i failed
  obtain ⟨lsn, -, failed⟩ := Option.bind_eq_some_iff.mp failed
  simp [ticketDone, coherent.intact] at failed

theorem release_move (coherent : w.Coherent cfg) : Move cfg w (.release t) (w.release cfg t) := by
  unfold release
  split
  · rename_i stage
    exact .close t stage
  · rename_i stage
    exact .drop t stage
  · rename_i rest stage
    obtain ⟨rfl, -⟩ := (coherent.sound t).formed.last rest stage
    exact .uncount t stage
  · rename_i stage
    exact .stride _ (.closed stage)
  · exact .idle _

theorem handle_move : Move cfg w (.handle t result) (w.handle cfg t result) := by
  refine guarded_move fun stage => ?_
  split
  · exact .settle _ (.inl stage) rfl rfl rfl
  rename_i pipelined
  split
  · rw [settle_self]
    exact .settle _ (.inl stage) rfl rfl rfl
  · exact .settle _ (.inl stage) rfl rfl rfl
  · exact .stride _ (.enqueue stage pipelined)

theorem submit_move : Move cfg w (.submit t) (w.submit cfg t) := by
  refine guarded_move fun stage => ?_
  split
  · exact .submit t stage
  · rw [settle_self]
    exact .settle _ (.inr stage) rfl rfl rfl

theorem await_move : Move cfg w (.await t) (w.await cfg t) := by
  unfold await
  split
  · rename_i stage
    exact guarded_move fun guard => .stride _ (.awaited stage guard.2)
  · rename_i stage
    exact guarded_move fun _ => .stride _ (.ready stage)
  · exact .idle _

theorem afterCommit_move {failed : Bool} : Move cfg w (.afterCommit t failed) (w.afterCommit cfg t failed) := by
  refine guarded_move fun stage => ?_
  split
  · exact .stride _ (.called (some _) failed stage (.inr rfl))
  · exact .stride _ (.called none failed stage (.inl rfl))

theorem pump_move (rejected : Bool) : Move cfg w (.pumpForward rejected) (w.pumpForward cfg rejected) := by
  unfold pumpForward
  split
  · rename_i pump
    split
    · exact .idle _
    · exact .pumpForward rejected _ pump
  · exact .idle _

theorem Coherent.step_move (coherent : w.Coherent cfg) (intact : input ≠ .walFail) :
    Move cfg w input (w.step cfg input) := by
  cases input with
  | order t => exact order_move
  | link t => exact linkCompletion_move
  | ticket t => exact waitTicket_move coherent
  | release t => exact release_move coherent
  | handle t result => exact handle_move
  | submit t => exact submit_move
  | await t => exact await_move
  | afterCommit t failed => exact afterCommit_move
  | pumpForward rejected => exact pump_move rejected
  | walFail => exact absurd rfl intact
  | stop => exact .stop
  | dispatch t => exact guarded_move fun guard => .dispatch t guard.1 guard.2
  | lock t e => exact guarded_move fun guard => .lock t e guard.1 guard.2.1 guard.2.2.1 guard.2.2.2
  | start t => exact guarded_move fun guard => .stride _ (.start guard.1 guard.2)
  | unlock t e => exact guarded_move fun guard => .unlock t e guard.1 guard.2
  | unlocked t => exact guarded_move fun guard => .stride _ (.unlocked guard.1 guard.2)
  | postpone t =>
    exact guarded_move fun guard =>
      .postpone t (.postponed guard.1 guard.2.1) guard.1 guard.2.1 rfl
  | conclude t => exact guarded_move fun member => .conclude t member
  | reply t => exact guarded_move fun stage => .stride _ (.replied _ stage)
  | sync lsn => exact guarded_move fun guard => .sync lsn guard.2.1 guard.2.2
  | pumpTake =>
    simp only [step, pumpTake]
    split
    · rename_i pump queue
      exact .pumpTake pump queue
    · exact .idle _
  | pumpNext =>
    simp only [step, pumpNext]
    split
    · rename_i pump
      exact guarded_move fun past => .pumpNext pump past
    · exact .idle _
  | workerNext worker =>
    simp only [step, workerNext]
    split
    · rename_i tasks
      exact guarded_move fun past => .workerNext worker tasks past
    · exact .idle _

end Roost.Nest.Pipeline
