import RoostCore.Nest.Completion
import Mathlib.Data.List.Infix
import Mathlib.Data.List.Sublists

/-! The invariant of the completion chains: where a transaction stands says which locks it
holds, on which chains it has a node, which of its nodes are closed and whom it has waited
for. What the chains have forgotten is read from the history. -/
namespace Roost.Nest

namespace CompletionEvent

/-- The transactions linked on the chain of an entity, newest first. -/
def line : List CompletionEvent → Int → List Nat
  | [], _ => []
  | .linked t e' :: older, e => if e' = e then t :: line older e else line older e
  | _ :: older, e => line older e

/-- The chain of the entity when the transaction took the lock. -/
def seen : List CompletionEvent → Nat → Int → List Nat
  | [], _, _ => []
  | .locked t' e' :: older, t, e => if t' = t ∧ e' = e then line older e else seen older t e
  | _ :: older, t, e => seen older t e

/-- The transactions that the counters stand for. -/
def countedIn : List CompletionEvent → List Nat
  | [] => []
  | .counted t :: older => t :: countedIn older
  | .uncounted t :: older => (countedIn older).erase t
  | _ :: older => countedIn older

variable {older : List CompletionEvent} {t : Nat} {e : Int}

theorem line_append : line (newer ++ older) e = line newer e ++ line older e := by
  induction newer with
  | nil => rfl
  | cons event newer ih =>
    cases event with
    | linked u e' => by_cases same : e' = e <;> simp [line, same, ih]
    | _ => exact ih

theorem mem_line : t ∈ line older e ↔ .linked t e ∈ older := by
  induction older with
  | nil => simp [line]
  | cons event older ih =>
    cases event with
    | linked u e' =>
      by_cases same : e' = e
      · subst same
        simp [line, ih]
      · simp [line, same, ih, Ne.symm same]
    | _ => simpa [line] using ih

end CompletionEvent

open CompletionEvent

namespace TxnStage

def Holding : TxnStage → Prop
  | .ordering _ | .handling | .enqueued | .counted | .linked => True
  | _ => False

def Locked : TxnStage → Prop
  | .locking | .releasing => True
  | stage => stage.Holding

end TxnStage

namespace Progress

def opened (route : CommitRoute) (p : Progress) : List Int :=
  match p.stage with
  | .closing orders | .uncounting orders => orders
  | .unchaining orders => orders.tail
  | .ended => []
  | .callbacks => if route = .remote then [] else p.orders
  | .replying => if route = .async then p.orders else []
  | _ => p.orders

/-- The orders that have not been awaited. -/
def unawaited (p : Progress) : List Int :=
  match p.stage with
  | .waiting orders => orders
  | .callbacks | .replying | .closing _ | .unchaining _ | .uncounting _ | .ended => []
  | _ => p.orders

/-- The entities that `orderBehindAsyncCompletions` has not looked at. -/
def unchecked (txn : Txn) (p : Progress) : List Int :=
  match p.stage with
  | .locking => txn.es
  | .ordering es => es
  | _ => []

/-- The orders a loop is still to go through. -/
def remaining (p : Progress) : List Int :=
  match p.stage with
  | .waiting orders | .closing orders | .unchaining orders | .uncounting orders => orders
  | _ => []

/-- The counter of its shard stands for the transaction. -/
def Counting (route : CommitRoute) (p : Progress) : Prop :=
  route = .async ∧
    match p.stage with
    | .counted => True
    | .closing orders => orders ≠ []
    | .ended => False
    | _ => p.orders ≠ []

/-- What the progress of one transaction shows by itself. -/
structure Formed (txn : Txn) (p : Progress) : Prop where
  nodup : p.orders.Nodup
  declared : ∀ e ∈ p.orders, e ∈ txn.es
  fresh : p.stage = .locking → p.orders = []
  unlinked : ¬txn.route.Ordinary →
    p.stage = .handling ∨ p.stage = .enqueued ∨ p.stage = .counted → p.orders = []
  single : ¬txn.route.Ordinary → p.orders = [] ∨ p.orders = [txn.first]
  pipelined : p.stage = .enqueued ∨ p.stage = .counted ∨ p.stage = .linked → ¬txn.route.Ordinary
  asynchronous : p.stage = .counted ∨ p.stage = .linked ∨ (∃ orders, p.stage = .uncounting orders) →
    txn.route = .async
  ordering : ∀ es, p.stage = .ordering es → txn.route.Ordinary ∧ ∀ e ∈ es, e ∈ txn.es
  remaining : p.remaining <:+ p.orders
  last : ∀ orders, p.stage = .uncounting orders → orders = [] ∧ p.orders ≠ []

end Progress

namespace Pipeline

/-- Where the transaction `t` stands, in the pipeline. -/
structure Sound (cfg : CompletionConfig) (w : Pipeline) (t : Nat) : Prop where
  formed : (w.progress t).Formed (cfg.txns t)
  holds : (w.progress t).stage.Holding → ∀ e ∈ (cfg.txns t).es, w.owner e = some t
  owns : ∀ e, w.owner e = some t → e ∈ (cfg.txns t).es ∧ (w.progress t).stage.Locked
  inLine : ∀ e, t ∈ line w.history e ↔ e ∈ (w.progress t).orders
  closed : ∀ e, w.chains.closed t e = true ↔
    e ∈ (w.progress t).orders ∧ e ∉ (w.progress t).opened (cfg.txns t).route
  awaited : ∀ e ∈ (w.progress t).orders, e ∉ (w.progress t).unawaited → w.chains.Awaited t e
  unmoved : ∀ e, w.owner e = some t →
    line w.history e = if e ∈ (w.progress t).orders then t :: seen w.history t e else seen w.history t e
  behind : ∀ e ∈ (w.progress t).orders, t :: seen w.history t e <:+ line w.history e
  checked : (cfg.txns t).route.Ordinary → ∀ e ∈ (cfg.txns t).es,
    e ∉ (w.progress t).unchecked (cfg.txns t) → e ∈ (w.progress t).orders ∨
      ∀ u ∈ seen w.history t e, (cfg.txns u).route = .async → w.chains.closed u e = true

variable {t : Nat} {w : Pipeline}

/-- The counters stand for the asynchronous nodes that are not released. -/
structure Counted (cfg : CompletionConfig) (w : Pipeline) : Prop where
  nodup : (countedIn w.history).Nodup
  mem : ∀ t, t ∈ countedIn w.history ↔ (w.progress t).Counting (cfg.txns t).route
  total : ∀ shard, w.asyncPending shard =
    (countedIn w.history).countP fun t => pendingShard (cfg.txns t).first = shard

/-- No ticket has failed, and every transaction is where it should be. -/
structure Coherent (cfg : CompletionConfig) (w : Pipeline) : Prop where
  intact : w.walFailed = false
  sound : ∀ t, w.Sound cfg t
  chained : ∀ e, w.chains.Linked e (line w.history e)
  counted : w.Counted cfg

@[simp] theorem put_progress : (w.put t p).progress t = p := by simp [put]

@[simp] theorem goto_progress :
    (w.goto t stage).progress t = { w.progress t with stage } := put_progress

end Pipeline

end Roost.Nest
