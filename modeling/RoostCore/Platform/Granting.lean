import RoostCore.Platform.Delivery

/-! The goods of an order are granted once. Each claimed attempt stays pending until the
deliverer's answer to it is recorded, and no attempt is claimed while one is pending. -/
namespace Roost.Platform
open Go Updates List

/-- What one execution of a store call does to the record. -/
inductive Edit : StoreCall → Option Order → Option Order → Prop where
  | same (call : StoreCall) (o : Option Order) : Edit call o o
  | created (order : Order) : Edit (.create order) none (some order)
  | restated (call : StoreCall) {x y : Order} (pending : y.pendingAttempts = x.pendingAttempts)
      (sequence : y.attemptSequence = x.attemptSequence) (before : x.state = .reserved ∨ x.state = .exhausted)
      (after : y.state = .reserved ∨ y.state = .exhausted ∨ y.state = .settled ∧ x.pendingAttempts = []) :
      Edit call (some x) (some y)
  | claimed (caller : Caller) (now : Time) {x y : Order} (before : x.state = .reserved)
      (free : x.pendingAttempts = []) (sequence : y.attemptSequence = x.attemptSequence + 1)
      (pending : y.pendingAttempts = [y.attemptSequence]) (after : y.state = .reserved) :
      Edit (.claim caller now) (some x) (some y)
  | completed (caller : Caller) (generation : Nat) (nowUnix : Int) {x y : Order}
      (member : generation ∈ x.pendingAttempts) (sequence : y.attemptSequence = x.attemptSequence)
      (pending : y.pendingAttempts = removeAttempt x.pendingAttempts generation)
      (after : y.state = .delivered) : Edit (.complete caller generation nowUnix) (some x) (some y)
  | denied (caller : Caller) (generation : Nat) (cause : Cause) (nowUnix : Int) {x y : Order}
      (never : cause.notApplied = true) (member : generation ∈ x.pendingAttempts)
      (sequence : y.attemptSequence = x.attemptSequence)
      (pending : y.pendingAttempts = removeAttempt x.pendingAttempts generation)
      (after : y.state = x.state ∨ y.state = .exhausted) :
      Edit (.recordFailure caller generation cause nowUnix) (some x) (some y)

theorem containsAttempt_iff : containsAttempt pending generation = true ↔ generation ∈ pending := by
  simp [containsAttempt]

section
variable {cfg : Config} {o : Option Order}

theorem claim_edit (caller : Caller) (now : Time) :
    Edit (.claim caller now) o ((claim cfg now o).store o) := by
  cases o with
  | none => exact .same _ _
  | some x =>
    unfold claim
    dsimp only
    split_ifs with delivered exhausted settled held spent full
    any_goals exact .same _ _
    all_goals
      have reserved : x.state = .reserved := by
        cases state : x.state <;> simp_all
    · exact .restated _ rfl rfl (.inl reserved) (.inr (.inl rfl))
    · have free : x.pendingAttempts = [] := by
        rw [not_or, Nat.not_lt] at spent
        exact eq_nil_of_length_eq_zero (Nat.le_zero.mp spent.1)
      exact .claimed _ _ reserved free rfl (by simp [free]) reserved

theorem complete_edit (caller : Caller) (generation : Nat) (nowUnix : Int) :
    Edit (.complete caller generation nowUnix) o ((complete generation nowUnix o).store o) := by
  cases o with
  | none => exact .same _ _
  | some x =>
    unfold complete
    dsimp only
    split_ifs with absent delivered
    · exact .same _ _
    all_goals
      have member : generation ∈ x.pendingAttempts := by
        rw [not_or, Bool.not_eq_false] at absent
        exact containsAttempt_iff.mp absent.2
    · exact .completed _ _ _ member rfl rfl delivered
    · exact .completed _ _ _ member rfl rfl rfl

theorem recordFailure_edit (caller : Caller) (generation : Nat) (cause : Cause) (nowUnix : Int) :
    Edit (.recordFailure caller generation cause nowUnix) o
      ((recordFailure generation cause nowUnix o).store o) := by
  cases o with
  | none => exact .same _ _
  | some x =>
    unfold recordFailure
    dsimp only
    by_cases absent : x.state = .settled ∨ containsAttempt x.pendingAttempts generation = false
    · rw [if_pos absent]
      exact .same _ _
    rw [if_neg absent]
    rw [not_or, Bool.not_eq_false] at absent
    have member := containsAttempt_iff.mp absent.2
    cases never : cause.notApplied with
    | false =>
      simp only [Bool.false_eq_true, if_false, true_or, if_true]
      split_ifs with late
      · exact .same _ _
      · refine .restated _ rfl rfl ?_ (.inr (.inl rfl))
        cases state : x.state <;> simp_all
    | true =>
      simp only [if_true, Bool.true_eq_false, false_or]
      split_ifs
      · exact .denied _ _ _ _ never member rfl rfl (.inl rfl)
      · exact .denied _ _ _ _ never member rfl rfl (.inr rfl)
      · exact .denied _ _ _ _ never member rfl rfl (.inl rfl)

theorem store_edit (call : StoreCall) : Edit call o (call.store cfg o) := by
  cases call with
  | create order =>
    cases o with
    | none => exact .created order
    | some x => exact .same _ _
  | get order => exact .same _ _
  | claim caller now => exact claim_edit caller now
  | complete caller generation nowUnix => exact complete_edit caller generation nowUnix
  | recordFailure caller generation cause nowUnix => exact recordFailure_edit caller generation cause nowUnix
  | reopen note nowUnix =>
    cases o with
    | none => exact .same _ _
    | some x =>
      unfold StoreCall.store reopenDelivery
      dsimp only
      split_ifs with free exhausted
      · exact .same _ _
      · exact .restated _ rfl rfl (.inr exhausted) (.inl rfl)
      · exact .same _ _
  | settle note nowUnix =>
    cases o with
    | none => exact .same _ _
    | some x =>
      unfold StoreCall.store settleOutOfBand
      dsimp only
      split_ifs with taken exhausted
      · exact .same _ _
      · have free : x.pendingAttempts = [] := by simpa using taken
        exact .restated _ rfl rfl (.inr exhausted) (.inr (.inr ⟨rfl, free⟩))
      · exact .same _ _

end

def Event.call : Event → Nat
  | .claimed t _ | .started t | .applied t | .ended t _ | .returned t _ => t

def Event.grants : Event → Bool
  | .applied _ => true
  | _ => false

attribute [simp] Event.denies

/-- The deliverer said whether the delivery of the call took effect. -/
def Known (history : List Event) (t : Nat) : Prop :=
  .ended t none ∈ history ∨ history.any (Event.denies t) = true

def Law (older : List Event) : Event → Prop
  | .started _ => ∀ u, .started u ∈ older → Known older u
  | .returned _ answer => answer.receipt.delivered = true → older.countP Event.grants = 1
  | _ => True

/-- The record of the order accounts for the history. -/
structure Ledger (o : Option Order) (history : List Event) : Prop where
  pending : ∀ x, o = some x → x.pendingAttempts = [] ∨
    x.pendingAttempts = [x.attemptSequence] ∧ (x.state = .reserved ∨ x.state = .exhausted)
  bounded : ∀ t n, .claimed t n ∈ history → ∃ x, o = some x ∧ n ≤ x.attemptSequence
  distinct : ∀ t u n, .claimed t n ∈ history → .claimed u n ∈ history → t = u
  resolved : ∀ t n x, .claimed t n ∈ history → o = some x → n ∉ x.pendingAttempts →
    history.any (Event.denies t) = true ∨ .ended t none ∈ history ∧ x.state = .delivered
  started : ∀ t, .started t ∈ history → ∃ n, .claimed t n ∈ history
  applied : ∀ t, .applied t ∈ history → .started t ∈ history ∧ history.any (Event.denies t) = false
  ended : ∀ t outcome, .ended t outcome ∈ history → .started t ∈ history ∧
    (outcome = none → .applied t ∈ history)
  once : history.countP Event.grants ≤ 1
  delivered : ∀ x, o = some x → x.state = .delivered → ∃ t, .applied t ∈ history
  lawful : Lawful Law history

/-- A call whose answer to an earlier callback is kept says nothing of a delivery. -/
def Caller.Undelivered : Caller → Prop
  | .replayed receipt => receipt.delivered = false
  | _ => True

/-- The call has claimed no attempt. -/
def Fresh (history : List Event) (t : Nat) : Prop := ∀ n, .claimed t n ∉ history

/-- Where a call stands is written in the history. -/
def Placed (o : Option Order) (history : List Event) (t : Nat) : Stage → Prop
  | .idle => Fresh history t
  | .storing (.create order) _ =>
      Fresh history t ∧ order.pendingAttempts = [] ∧ order.attemptSequence = 0 ∧ order.state = .reserved
  | .storing (.claim caller _) _ => Fresh history t ∧ caller.Undelivered
  | .storing (.complete caller generation _) _ =>
      .claimed t generation ∈ history ∧ .ended t none ∈ history ∧ caller.Undelivered
  | .storing (.recordFailure caller generation cause _) _ =>
      .claimed t generation ∈ history ∧ .ended t (some cause) ∈ history ∧ caller.Undelivered
  | .storing _ _ => Fresh history t
  | .claimed caller order _ =>
      .claimed t order.attemptSequence ∈ history ∧ .started t ∉ history ∧ caller.Undelivered
  | .delivering caller order _ =>
      .claimed t order.attemptSequence ∈ history ∧ .started t ∈ history ∧ caller.Undelivered
  | .answering answer => answer.receipt.delivered = true → ∃ x, o = some x ∧ x.state = .delivered
  | .finished => True

structure World.Sound (w : World) : Prop where
  ledger : Ledger w.order w.history
  placed : ∀ t, Placed w.order w.history t (w.calls t)

namespace Ledger

variable {o after : Option Order} {history : List Event} {t n : Nat} {x : Order} {call : StoreCall}

/-- While nothing is pending and nothing delivered, no goods took effect. -/
theorem not_applied (ledger : Ledger (some x) history) (free : x.pendingAttempts = [])
    (undelivered : x.state ≠ .delivered) (t : Nat) : .applied t ∉ history := by
  intro applied
  obtain ⟨started, undenied⟩ := ledger.applied t applied
  obtain ⟨n, claimed⟩ := ledger.started t started
  rcases ledger.resolved t n x claimed rfl (by simp [free]) with denied | ⟨_, delivered⟩
  · simp [undenied] at denied
  · exact undelivered delivered

/-- An attempt whose outcome is unknown is the pending one. -/
theorem pending_of_unknown (ledger : Ledger o history) (claimed : .claimed t n ∈ history)
    (unknown : ¬ Known history t) :
    ∃ x, o = some x ∧ x.pendingAttempts = [n] ∧ n = x.attemptSequence ∧ x.state ≠ .delivered := by
  obtain ⟨x, rfl, _⟩ := ledger.bounded t n claimed
  have member : n ∈ x.pendingAttempts := by
    by_contra absent
    rcases ledger.resolved t n x claimed rfl absent with denied | ⟨ended, _⟩
    · exact unknown (.inr denied)
    · exact unknown (.inl ended)
  rcases ledger.pending x rfl with free | ⟨single, state⟩
  · simp [free] at member
  rw [single, mem_singleton] at member
  subst member
  refine ⟨x, rfl, single, rfl, ?_⟩
  rcases state with state | state <;> simp [state]

theorem not_known (ledger : Ledger o history) (unstarted : .started t ∉ history) : ¬ Known history t := by
  rintro (ended | denied)
  · exact unstarted (ledger.ended t none ended).1
  · obtain ⟨event, member, denies⟩ := any_eq_true.mp denied
    cases event with
    | ended u outcome =>
      cases outcome with
      | none => simp at denies
      | some cause =>
        simp only [Event.denies, Bool.and_eq_true, beq_iff_eq] at denies
        obtain ⟨rfl, _⟩ := denies
        exact unstarted (ledger.ended u _ member).1
    | _ => simp at denies

theorem final (ledger : Ledger (some x) history) (closed : x.state = .delivered ∨ x.state = .settled)
    (edit : Edit call (some x) after) : after = some x := by
  have free : x.pendingAttempts = [] := by
    rcases ledger.pending x rfl with free | ⟨_, state⟩
    · exact free
    · rcases closed with closed | closed <;> simp [closed] at state
  cases edit with
  | same => rfl
  | restated _ _ _ before _ | claimed _ _ before _ _ _ _ =>
    rcases closed with closed | closed <;> simp [closed] at before
  | completed _ _ _ member _ _ _ | denied _ _ _ _ _ member _ _ _ => simp [free] at member

/-- The answer to a pending attempt takes it from the record; it was the only one. -/
theorem single_pending (ledger : Ledger (some x) history) (member : n ∈ x.pendingAttempts) :
    removeAttempt x.pendingAttempts n = [] ∧ x.pendingAttempts = [n] ∧
      (x.state = .reserved ∨ x.state = .exhausted) := by
  rcases ledger.pending x rfl with free | ⟨single, state⟩
  · simp [free] at member
  · rw [single, mem_singleton] at member
    simp [removeAttempt, single, member, state]

/-- The record accounts for the history after each execution of a store call. -/
theorem edit (ledger : Ledger o history) (edit : Edit call o after)
    (placed : Placed o history t (.storing call live)) : Ledger after history := by
  cases edit with
  | same => exact ledger
  | created order =>
    obtain ⟨_, free, _, reserved⟩ := placed
    refine { ledger with pending := ?_, bounded := ?_, resolved := ?_, delivered := ?_ }
    all_goals grind [ledger.bounded]
  | restated _ pending sequence before later =>
    refine { ledger with pending := ?_, bounded := ?_, resolved := ?_, delivered := ?_ }
    all_goals grind [ledger.pending, ledger.bounded, ledger.resolved]
  | claimed caller now before free sequence pending later =>
    refine { ledger with pending := ?_, bounded := ?_, resolved := ?_, delivered := ?_ }
    all_goals grind [ledger.bounded, ledger.resolved]
  | completed caller generation nowUnix member sequence pending later =>
    -- the attempt was the only one pending, and the call that held it granted the goods
    obtain ⟨claimed, ended, _⟩ := placed
    obtain ⟨rest, single, _⟩ := ledger.single_pending member
    refine { ledger with pending := ?_, bounded := ?_, resolved := ?_
                         delivered := fun _ _ _ => ⟨t, (ledger.ended t none ended).2 rfl⟩ }
    all_goals grind [ledger.bounded, ledger.resolved, ledger.distinct]
  | denied caller generation cause nowUnix never member sequence pending later =>
    obtain ⟨claimed, ended, _⟩ := placed
    obtain ⟨rest, single, _⟩ := ledger.single_pending member
    have denies : history.any (Event.denies t) = true :=
      any_eq_true.mpr ⟨_, ended, by simp [never]⟩
    refine { ledger with pending := ?_, bounded := ?_, resolved := ?_, delivered := ?_ }
    all_goals grind [ledger.bounded, ledger.resolved, ledger.distinct]

theorem returned (ledger : Ledger o history)
    (told : answer.receipt.delivered = true → ∃ x, o = some x ∧ x.state = .delivered) :
    Ledger o (.returned t answer :: history) := by
  have law : Law history (.returned t answer) := by
    intro delivered
    obtain ⟨x, found, state⟩ := told delivered
    obtain ⟨u, applied⟩ := ledger.delivered x found state
    exact Nat.le_antisymm ledger.once (countP_pos_iff.mpr ⟨_, applied, rfl⟩)
  obtain ⟨pending, bounded, distinct, resolved, started, applied, ended, once, delivered, lawful⟩ := ledger
  refine ⟨pending, ?_, ?_, ?_, ?_, ?_, ?_, once, ?_, law, lawful⟩
  all_goals simpa only [mem_cons, reduceCtorEq, false_or, any_cons, Event.denies, Bool.false_or]

theorem claimed (ledger : Ledger (some x) history) (own : ∀ u, .claimed u n ∉ history)
    (_ : n ≤ x.attemptSequence) (member : n ∈ x.pendingAttempts) :
    Ledger (some x) (.claimed t n :: history) := by
  obtain ⟨pending, bounded, distinct, resolved, started, applied, ended, once, delivered, lawful⟩ := ledger
  refine ⟨pending, ?_, ?_, ?_, ?_, ?_, ?_, once, ?_, trivial, lawful⟩
  all_goals
    simp only [mem_cons, any_cons, Event.denies, Bool.false_or]
    grind

/-- A delivery starts when the outcome of every other one is known. -/
theorem begun (ledger : Ledger o history) (claimed : .claimed t n ∈ history)
    (unstarted : .started t ∉ history) : Ledger o (.started t :: history) := by
  obtain ⟨x, rfl, single, same, -⟩ := ledger.pending_of_unknown claimed (ledger.not_known unstarted)
  have law : Law history (.started t) := by
    intro u begun
    by_contra unknown
    obtain ⟨m, first⟩ := ledger.started u begun
    obtain ⟨_, ⟨⟩, other, -⟩ := ledger.pending_of_unknown first unknown
    rw [single, cons.injEq] at other
    rw [← other.1] at first
    exact unstarted (ledger.distinct u t n first claimed ▸ begun)
  obtain ⟨pending, bounded, distinct, resolved, started, applied, ended, once, delivered, lawful⟩ := ledger
  refine ⟨pending, ?_, ?_, ?_, ?_, ?_, ?_, once, ?_, law, lawful⟩
  all_goals
    simp only [mem_cons, any_cons, Event.denies, Bool.false_or]
    grind

/-- The goods take effect only in a delivery whose outcome is unknown, so in no other. -/
theorem granted (ledger : Ledger o history) (begun : .started t ∈ history)
    (new : .applied t ∉ history) (undenied : history.any (Event.denies t) = false) :
    Ledger o (.applied t :: history) := by
  obtain ⟨n, claimed⟩ := ledger.started t begun
  have unknown : ¬ Known history t := by
    rintro (ended | denied)
    · exact new ((ledger.ended t none ended).2 rfl)
    · simp [undenied] at denied
  obtain ⟨x, rfl, single, rfl, undelivered⟩ := ledger.pending_of_unknown claimed unknown
  have nobody (u : Nat) : .applied u ∉ history := by
    intro member
    obtain ⟨started, allowed⟩ := ledger.applied u member
    obtain ⟨m, first⟩ := ledger.started u started
    by_cases same : m = x.attemptSequence
    · exact new (ledger.distinct u t m first (same ▸ claimed) ▸ member)
    rcases ledger.resolved u m x first rfl (by simp [single, same]) with denied | ⟨_, delivered⟩
    · simp [allowed] at denied
    · exact undelivered delivered
  have none_granted : history.countP Event.grants = 0 := by
    refine countP_eq_zero.mpr fun event member grants => ?_
    cases event with
    | applied u => exact nobody u member
    | _ => simp [Event.grants] at grants
  obtain ⟨pending, bounded, distinct, resolved, started, applied, ended, once, delivered, lawful⟩ := ledger
  refine ⟨pending, ?_, ?_, ?_, ?_, ?_, ?_, ?_, fun _ _ _ => ⟨t, mem_cons_self⟩, trivial, lawful⟩
  case refine_7 => rw [countP_cons_of_pos rfl, none_granted]
  all_goals
    simp only [mem_cons, any_cons, Event.denies, Bool.false_or]
    grind

theorem answered (ledger : Ledger o history) (begun : .started t ∈ history)
    (granted : outcome = none → .applied t ∈ history)
    (denied : ∀ cause, outcome = some cause → cause.notApplied = true → .applied t ∉ history) :
    Ledger o (.ended t outcome :: history) := by
  have silent (u : Nat) (member : .applied u ∈ history) : Event.denies u (.ended t outcome) = false := by
    cases outcome <;> grind [Event.denies]
  obtain ⟨pending, bounded, distinct, resolved, started, applied, ended, once, delivered, lawful⟩ := ledger
  refine ⟨pending, ?_, ?_, ?_, ?_, ?_, ?_, once, ?_, trivial, lawful⟩
  all_goals
    simp only [mem_cons, any_cons]
    grind

end Ledger

section
variable {cfg : Config} {o after : Option Order} {history : List Event} {t u : Nat} {event : Event}
  {stage : Stage} {call : StoreCall}

/-- The event says nothing of where the call stands. -/
def Event.Beside (t : Nat) : Event → Prop
  | .returned _ _ | .applied _ => True
  | event => event.call ≠ t

theorem Event.beside_of_ne (other : event.call ≠ t) : event.Beside t := by
  cases event <;> trivial

theorem Placed.log (placed : Placed o history t stage) (beside : event.Beside t) :
    Placed o (event :: history) t stage := by
  have same (own : Event) (mine : ¬ own.Beside t) : own ∈ event :: history ↔ own ∈ history := by
    have : own ≠ event := fun same => mine (same ▸ beside)
    simp [this]
  have fresh (fresh : Fresh history t) : Fresh (event :: history) t :=
    fun n => (same (.claimed t n) (not_not.mpr rfl)).not.mpr (fresh n)
  cases stage with
  | idle => exact fresh placed
  | storing call live =>
    cases call with
    | create order => exact ⟨fresh placed.1, placed.2⟩
    | claim caller now => exact ⟨fresh placed.1, placed.2⟩
    | complete | recordFailure =>
      simpa only [Placed, same (.claimed t _) (not_not.mpr rfl),
        same (.ended t _) (not_not.mpr rfl)] using placed
    | _ => exact fresh placed
  | claimed | delivering =>
    simpa only [Placed, same (.claimed t _) (not_not.mpr rfl),
      same (.started t) (not_not.mpr rfl)] using placed
  | _ => exact placed

theorem Placed.edit (placed : Placed o history t stage) (ledger : Ledger o history) (edit : Edit call o after) :
    Placed after history t stage := by
  cases stage with
  | answering answer =>
    intro delivered
    obtain ⟨x, rfl, state⟩ := placed delivered
    exact ⟨x, ledger.final (.inl state) edit, state⟩
  | storing call live => cases call <;> exact placed
  | _ => exact placed

theorem Caller.answer_delivered (caller : Caller) (undelivered : caller.Undelivered)
    (delivered : (caller.answer attempt).receipt.delivered = true) :
    attempt.receipt.delivered = true := by
  cases caller with
  | direct => exact delivered
  | created order =>
    simp only [Caller.answer] at delivered
    split at delivered
    · simp at delivered
    · exact delivered
  | replayed receipt =>
    simp only [Caller.answer] at delivered
    split at delivered
    · simp [show receipt.delivered = false from undelivered] at delivered
    · exact delivered

theorem Caller.placed_answer (caller : Caller) (undelivered : caller.Undelivered)
    (silent : attempt.receipt.delivered = false) :
    Placed o history t (.answering (caller.answer attempt)) :=
  fun delivered => absurd (caller.answer_delivered undelivered delivered) (by simp [silent])

/-- A claim names an attempt of its own, or finds the goods delivered. -/
theorem claim_ok (result : (claim cfg now o).result = .ok (order, outcome)) :
    (claim cfg now o).store o = some order ∧ (outcome = .alreadyDelivered → order.state = .delivered) ∧
      (outcome = .claimed → ∃ x, o = some x ∧ order.attemptSequence = x.attemptSequence + 1 ∧
        order.pendingAttempts = [order.attemptSequence]) := by
  cases o with
  | none => simp [claim, Decision.result] at result
  | some x =>
    unfold claim at result ⊢
    dsimp only at result ⊢
    split_ifs at result ⊢ with delivered exhausted settled held spent full
    all_goals cases result
    all_goals refine ⟨rfl, ?_, ?_⟩ <;> intro named <;> try contradiction
    · exact delivered
    · rw [not_or, Nat.not_lt] at spent
      have free := eq_nil_of_length_eq_zero (Nat.le_zero.mp spent.1)
      exact ⟨x, rfl, rfl, by simp [free]⟩

theorem complete_store (result : (complete generation nowUnix o).result = .ok (order, raced)) :
    (complete generation nowUnix o).store o = some order := by
  cases o with
  | none => simp [complete, Decision.result] at result
  | some x =>
    unfold complete at result ⊢
    dsimp only at result ⊢
    split_ifs at result ⊢
    all_goals
      simp only [Decision.result, Except.ok.injEq, Prod.mk.injEq] at result
      exact congrArg some result.1

theorem Ledger.follow (ledger : Ledger o history) (placed : Placed o history t (.storing call true)) (now : Time) :
    Ledger (call.store cfg o) (((call.follow cfg o now).event t).toList ++ history) ∧
      Placed (call.store cfg o) (((call.follow cfg o now).event t).toList ++ history) t
        (call.follow cfg o now) := by
  have kept : Ledger (call.store cfg o) history := ledger.edit (store_edit call) placed
  cases call with
  | create order =>
    cases o with
    | none => exact ⟨kept, placed.1, trivial⟩
    | some x => exact ⟨kept, placed.1⟩
  | get order =>
    cases o with
    | none => exact ⟨kept, nofun⟩
    | some x =>
      simp only [StoreCall.follow]
      split_ifs with differs delivered
      · exact ⟨kept, nofun⟩
      · exact ⟨kept, fun _ => ⟨x, rfl, by simpa using delivered⟩⟩
      · exact ⟨kept, placed, by simpa [Caller.Undelivered] using delivered⟩
  | claim caller start =>
    obtain ⟨fresh, undelivered⟩ := placed
    simp only [StoreCall.follow]
    split
    any_goals exact ⟨kept, caller.placed_answer undelivered rfl⟩
    · rename_i order result
      obtain ⟨store, state, -⟩ := claim_ok result
      exact ⟨kept, fun _ => ⟨order, store, state rfl⟩⟩
    · rename_i order result
      obtain ⟨store, -, claimed⟩ := claim_ok result
      obtain ⟨x, rfl, sequence, pending⟩ := claimed rfl
      simp only [StoreCall.store, store] at kept ⊢
      refine ⟨kept.claimed (fun u first => ?_) le_rfl (by simp [pending]), mem_cons_self, ?_, undelivered⟩
      · obtain ⟨_, ⟨⟩, bound⟩ := ledger.bounded u _ first
        omega
      · intro begun
        obtain ⟨n, first⟩ := ledger.started t (by simpa [Stage.event] using begun)
        exact fresh n first
  | complete caller generation nowUnix =>
    have undelivered := placed.2.2
    simp only [StoreCall.follow]
    split
    · exact ⟨kept, caller.placed_answer undelivered rfl⟩
    rename_i order raced result
    split_ifs with settled state
    · exact ⟨kept, caller.placed_answer undelivered rfl⟩
    · exact ⟨kept, caller.placed_answer undelivered rfl⟩
    · exact ⟨kept, fun _ => ⟨order, complete_store result, not_not.mp state⟩⟩
  | recordFailure caller generation cause nowUnix =>
    have undelivered := placed.2.2
    simp only [StoreCall.follow]
    split
    all_goals exact ⟨kept, caller.placed_answer undelivered rfl⟩
  | reopen | settle => exact ⟨kept, trivial⟩

theorem Placed.dead (placed : Placed o history t (.storing call live)) :
    Placed o history t (.storing call false) := by
  cases call <;> exact placed

end

namespace World

variable {cfg : Config} {orderID : String} {w : World} {t : Nat} {o : Option Order} {history : List Event}
  {stage : Stage}

theorem Sound.move (sound : w.Sound) (ledger : Ledger o history) (own : Placed o history t stage)
    (others : ∀ u, u ≠ t → Placed w.order w.history u (w.calls u) → Placed o history u (w.calls u)) :
    Sound ⟨o, Function.update w.calls t stage, history⟩ := by
  refine ⟨ledger, fun u => ?_⟩
  by_cases here : u = t
  · subst here
    simpa using own
  · simpa [here] using others u here (sound.placed u)

theorem enter_sound (sound : w.Sound) (own : Fresh w.history t → Placed w.order w.history t stage) :
    (w.enter t stage).Sound := by
  unfold enter
  split
  · rename_i idle
    have fresh := sound.placed t
    rw [idle] at fresh
    exact sound.move sound.ledger (own fresh) fun _ _ => id
  · exact sound

theorem execute_sound (sound : w.Sound) (now : Time) : (w.execute cfg t now).Sound := by
  unfold execute
  split
  · rename_i call live storing
    have placed := sound.placed t
    rw [storing] at placed
    cases live with
    | false =>
      exact sound.move (sound.ledger.edit (store_edit call) placed) trivial fun _ _ placed =>
        placed.edit sound.ledger (store_edit call)
    | true =>
      simp only [if_true]
      obtain ⟨ledger, own⟩ : _ ∧ Placed (call.store cfg w.order) _ _ _ := sound.ledger.follow placed now
      refine sound.move ledger own fun u other placed => ?_
      have kept : Placed (call.store cfg w.order) w.history u (w.calls u) :=
        placed.edit sound.ledger (store_edit call)
      cases event : (call.follow cfg w.order now).event t with
      | none => exact kept
      | some e =>
        refine kept.log (Event.beside_of_ne ?_)
        cases after : call.follow cfg w.order now <;> simp_all [Stage.event]
        subst event
        exact fun same => other same.symm
  · exact sound

theorem reexecute_sound (sound : w.Sound) : (w.reexecute cfg t).Sound := by
  unfold reexecute
  split
  · rename_i call live storing
    have placed := sound.placed t
    rw [storing] at placed
    exact ⟨sound.ledger.edit (store_edit call) placed, fun u => (sound.placed u).edit sound.ledger (store_edit call)⟩
  · exact sound

theorem failure_silent (placed : Placed o history t (.storing call live))
    (failed : call.failure = some answer) :
    answer.receipt.delivered = true → ∃ x, o = some x ∧ x.state = .delivered := by
  cases call with
  | create | get =>
    cases failed
    exact nofun
  | claim caller =>
    cases failed
    exact fun delivered => absurd (caller.answer_delivered placed.2 delivered) nofun
  | complete caller | recordFailure caller =>
    cases failed
    exact fun delivered => absurd (caller.answer_delivered placed.2.2 delivered) nofun
  | reopen | settle => contradiction

section
variable (sound : w.Sound)
include sound

theorem storeError_sound : (w.storeError t).Sound := by
  unfold storeError
  split
  · rename_i call storing
    have placed : Placed w.order w.history t (.storing call true) := storing ▸ sound.placed t
    cases failed : call.failure with
    | none => exact sound.move sound.ledger placed.dead fun _ _ => id
    | some answer =>
      exact sound.move (sound.ledger.returned (failure_silent placed failed)) (placed.dead.log trivial)
        fun u _ placed => placed.log trivial
  · exact sound

theorem crash_sound : (w.crash t).Sound := by
  unfold crash
  split
  · rename_i call live storing
    have placed : Placed w.order w.history t (.storing call live) := storing ▸ sound.placed t
    exact sound.move sound.ledger placed.dead fun _ _ => id
  · exact sound.move sound.ledger trivial fun _ _ => id

theorem deliver_sound : (w.deliver t).Sound := by
  unfold deliver
  split
  · rename_i caller order now claimed
    have placed := sound.placed t
    rw [claimed] at placed
    obtain ⟨first, unstarted, undelivered⟩ := placed
    exact sound.move (sound.ledger.begun first unstarted)
      ⟨mem_cons_of_mem _ first, mem_cons_self, undelivered⟩
      fun u other placed => placed.log (Event.beside_of_ne other.symm)
  · exact sound

theorem apply_sound : (w.apply t).Sound := by
  unfold apply
  split
  · rename_i guard
    exact ⟨sound.ledger.granted guard.1 guard.2.1 guard.2.2, fun u => (sound.placed u).log trivial⟩
  · exact sound

theorem finish_sound (outcome : Option Cause) : (w.finish t outcome).Sound := by
  unfold finish
  split
  · rename_i caller order now delivering
    split
    · rename_i truthful
      have placed := sound.placed t
      rw [delivering] at placed
      obtain ⟨first, begun, undelivered⟩ := placed
      refine sound.move (sound.ledger.answered begun ?_ ?_) ?_
        fun u other placed => placed.log (Event.beside_of_ne other.symm)
      · rintro rfl
        exact truthful
      · rintro cause rfl
        exact truthful
      · cases outcome <;> exact ⟨mem_cons_of_mem _ first, mem_cons_self, undelivered⟩
    · exact sound
  · exact sound

theorem reply_sound : (w.reply t).Sound := by
  unfold reply
  split
  · rename_i answer answering
    have placed := sound.placed t
    rw [answering] at placed
    exact sound.move (sound.ledger.returned placed) trivial fun u _ placed => placed.log trivial
  · exact sound

end

theorem readCallback_new {order : Order} (read : readCallback cfg raw signature now = .ok order) :
    order.pendingAttempts = [] ∧ order.attemptSequence = 0 ∧ order.state = .reserved := by
  unfold readCallback at read
  split_ifs at read
  split at read
  · cases read
  dsimp only at read
  split at read
  · cases read
  · rw [← Except.ok.inj read]
    exact ⟨rfl, rfl, rfl⟩

theorem step_sound (sound : w.Sound) (input : Input) : (w.step cfg orderID input).Sound := by
  cases input with
  | handleCallback t raw signature now =>
    simp only [step]
    split
    · exact enter_sound sound fun _ => nofun
    rename_i order read
    split
    · exact enter_sound sound fun fresh => ⟨fresh, readCallback_new read⟩
    · exact sound
  | attemptDelivery t now =>
    simp only [step]
    split
    · exact enter_sound sound fun _ => nofun
    · exact enter_sound sound fun fresh => ⟨fresh, trivial⟩
  | reopenDelivery t note now | settleOutOfBand t note now =>
    simp only [step]
    split
    · exact enter_sound sound fun _ => trivial
    · exact enter_sound sound id
  | execute t now => exact execute_sound sound now
  | reexecute t => exact reexecute_sound sound
  | storeError t => exact storeError_sound sound
  | crash t => exact crash_sound sound
  | deliver t => exact deliver_sound sound
  | apply t => exact apply_sound sound
  | finish t outcome => exact finish_sound sound outcome
  | reply t => exact reply_sound sound

theorem init_sound : init.Sound :=
  ⟨by constructor <;> simp [init, Lawful], fun _ => by simp [init, Placed, Fresh]⟩

theorem run_sound (inputs : List Input) : (run (step cfg orderID) init inputs).Sound :=
  invariant (P := Sound) (fun _ input sound => step_sound sound input) init_sound inputs

theorem step_final (sound : w.Sound) (found : w.order = some x)
    (closed : x.state = .delivered ∨ x.state = .settled) (input : Input) :
    (w.step cfg orderID input).order = some x := by
  have final {call : StoreCall} : call.store cfg w.order = some x := by
    have ledger := sound.ledger
    rw [found] at ledger ⊢
    exact ledger.final closed (store_edit call)
  have entered {t : Nat} {stage : Stage} : (w.enter t stage).order = some x := by
    unfold enter
    split <;> exact found
  cases input with
  | handleCallback | attemptDelivery | reopenDelivery | settleOutOfBand =>
    simp only [step]
    split <;> first | exact entered | (split <;> first | exact entered | exact found)
  | execute | reexecute =>
    simp only [step, execute, reexecute]
    split <;> first | exact final | exact found
  | storeError | crash | deliver | apply | reply =>
    simp only [step, storeError, crash, deliver, apply, reply]
    split <;> exact found
  | finish =>
    simp only [step, finish]
    split
    · split <;> exact found
    · exact found

theorem run_final (sound : w.Sound) (found : w.order = some x)
    (closed : x.state = .delivered ∨ x.state = .settled) (inputs : List Input) :
    (run (step cfg orderID) w inputs).Sound ∧ (run (step cfg orderID) w inputs).order = some x :=
  invariant (P := fun w : World => w.Sound ∧ w.order = some x)
    (fun _ input ⟨sound, found⟩ => ⟨step_sound sound input, step_final sound found closed input⟩)
    ⟨sound, found⟩ inputs

/-- Whatever the interleaving of callbacks, attempts and operator calls, their crashes and the
executions of their store calls: the goods of the order take effect at most once; a delivery
starts only when the outcome of every earlier one is known; a settled order has had no goods and
gets none later; a receipt says that the goods are delivered only after they took effect once;
a delivered or settled record never changes. -/
theorem goods_granted_once (cfg : Config) (orderID : String) (inputs : List Input) :
    (run (step cfg orderID) init inputs).history.countP Event.grants ≤ 1 ∧
    (∀ t later older, (run (step cfg orderID) init inputs).history = later ++ .started t :: older →
      ∀ u, .started u ∈ older → Known older u) ∧
    (∀ x, (run (step cfg orderID) init inputs).order = some x → x.state = .settled → ∀ more t,
      .applied t ∉ (run (step cfg orderID) init (inputs ++ more)).history) ∧
    (∀ t answer later older, (run (step cfg orderID) init inputs).history = later ++ .returned t answer :: older →
      answer.receipt.delivered = true → older.countP Event.grants = 1) ∧
    ∀ x, (run (step cfg orderID) init inputs).order = some x → x.state = .delivered ∨ x.state = .settled →
      ∀ more, (run (step cfg orderID) init (inputs ++ more)).order = some x := by
  have sound : (run (step cfg orderID) init inputs).Sound := run_sound inputs
  have ledger := sound.ledger
  refine ⟨ledger.once, fun t later older split => ledger.lawful.at split, fun x found settled more t => ?_,
    fun t answer later older split => ledger.lawful.at split, fun x found closed more => ?_⟩
  · obtain ⟨after, kept⟩ := run_final sound found (.inr settled) more
    rw [run_append]
    have ledger := after.ledger
    rw [kept] at ledger
    rcases ledger.pending x rfl with free | ⟨_, state⟩
    · exact ledger.not_applied free (by simp [settled]) t
    · simp [settled] at state
  · rw [run_append]
    exact (run_final sound found closed more).2

/-- Every payload verifies and pays for the same product. -/
def anyPayload : Config where
  verify _ _ := true
  decode _ := some ⟨"o", 1, "", "p", 1, "", 1⟩
  contentDigest _ := ""
  deliveryAttempts := 2
  deliveryBackoff := 0

/-- The first attempt is denied and the second grants; its first record of that is lost. -/
def secondAttempt : List Input :=
  [.handleCallback 0 [0] "" 0, .execute 0 0, .execute 0 0, .deliver 0, .finish 0 (some ⟨true, []⟩), .execute 0 0,
    .attemptDelivery 1 0, .execute 1 0, .deliver 1, .apply 1, .finish 1 none, .reexecute 1, .execute 1 0, .reply 1]

theorem goods_granted_once_secondAttempt :
    (∃ x, (run (step anyPayload "o") init secondAttempt).order = some x ∧ x.state = .delivered) ∧
    (run (step anyPayload "o") init secondAttempt).history.countP Event.grants = 1 := by
  have once := (goods_granted_once anyPayload "o" secondAttempt).1
  have some : 0 < (run (step anyPayload "o") init secondAttempt).history.countP Event.grants := by decide +kernel
  refine ⟨⟨((run (step anyPayload "o") init secondAttempt).order).getD {}, ?_⟩, by omega⟩
  decide +kernel

end World

end Roost.Platform
