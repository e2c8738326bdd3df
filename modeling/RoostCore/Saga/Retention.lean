import RoostCore.Saga.Dispatch

/-! The admission of a definition against the retention of the participants' receipts
(`record.go`). The windows are computed in `int64`, where a long budget wraps. -/
namespace Roost.Saga
open Go

/-- A zero field is not given. -/
structure StepBudget where
  timeout : Duration
  maxAttempts : UInt32
  backoffMin : Duration
  backoffMax : Duration
  deriving DecidableEq

def defaultStepBudget : StepBudget :=
  { timeout := 5 * second, maxAttempts := 5, backoffMin := 100 * millisecond,
    backoffMax := 5 * second }

structure StepKey where
  type : String
  step : String
  deriving DecidableEq

structure StepBudgets where
  defaults : StepBudget
  overrides : Table StepKey StepBudget

def firstDuration (values : List Duration) : Duration := (values.find? (0 < ·)).getD 0

def firstAttempts (values : List UInt32) : UInt32 := (values.find? (0 < ·)).getD 0

/-- The override of a step, under its own names or in lower case; `toLower` is
`strings.ToLower`. -/
def StepBudgets.override (budgets : StepBudgets) (toLower : String → String)
    (type step : String) : StepBudget :=
  ((budgets.overrides.get ⟨type, step⟩).or
    (budgets.overrides.get ⟨toLower type, toLower step⟩)).getD ⟨0, 0, 0, 0⟩

def StepBudgets.resolveStep (budgets : StepBudgets) (override : StepBudget) (step : Step) : Step :=
  let builtin := defaultStepBudget
  { step with
    timeout := firstDuration
      [override.timeout, step.timeout, budgets.defaults.timeout, builtin.timeout]
    maxAttempts := firstAttempts
      [override.maxAttempts, step.maxAttempts, budgets.defaults.maxAttempts, builtin.maxAttempts]
    backoffMin := firstDuration
      [override.backoffMin, step.backoffMin, budgets.defaults.backoffMin, builtin.backoffMin]
    backoffMax := firstDuration
      [override.backoffMax, step.backoffMax, budgets.defaults.backoffMax, builtin.backoffMax] }

/-- An override goes before the definition, the definition before the defaults. -/
def StepBudgets.resolve (budgets : StepBudgets) (toLower : String → String) (d : Definition) :
    Definition :=
  { d with steps := d.steps.map fun step =>
      budgets.resolveStep (budgets.override toLower d.type step.name) step }

def receiptRetentionFactor : Int := 2

/-- The refused step, with the numbers of the error text. -/
structure RetentionError where
  type : String
  version : UInt32
  step : Step
  retention : Duration
  window : Duration
  deriving DecidableEq

/-- The loop returns at the first step whose doubled window is longer. -/
def checkReceiptRetention (d : Definition) (retention : Duration) : Except RetentionError Unit :=
  match d.steps.find? fun step =>
      retention < Int.bmod (receiptRetentionFactor * step.retryWindow) (2 ^ 64) with
  | none => .ok ()
  | some step =>
      .error { type := d.type, version := d.version, step, retention, window := step.retryWindow }

/-- The time for which a receipt must be kept, as an integer. -/
def Step.keepReceipts (s : Step) : Int :=
  2 * (s.timeout * s.maxAttempts.toNat + s.backoffMax * (s.maxAttempts.toNat - 1))

theorem checkReceiptRetention_ok : checkReceiptRetention d retention = .ok () ↔
      ∀ step ∈ d.steps, Int.bmod (receiptRetentionFactor * step.retryWindow) (2 ^ 64) ≤ retention := by
  unfold checkReceiptRetention
  split
  · rename_i none
    simpa using List.find?_eq_none.mp none
  · rename_i step found
    have longer := List.find?_some found
    have member := List.mem_of_find?_eq_some found
    simp only [reduceCtorEq, false_iff, not_forall]
    exact ⟨step, member, by simpa using longer⟩

theorem keepReceipts_nonneg {s : Step} (valid : s.valid = true) : 0 ≤ s.keepReceipts ∧
    Int.bmod (receiptRetentionFactor * s.retryWindow) (2 ^ 64) = Int.bmod s.keepReceipts (2 ^ 64) := by
  simp only [Step.valid, Bool.and_eq_true, decide_eq_true_eq, bne_iff_ne, ne_eq] at valid
  obtain ⟨⟨⟨⟨⟨-, timeout⟩, some⟩, -⟩, backoffMin⟩, backoff⟩ := valid
  have attempts : 1 ≤ s.maxAttempts.toNat :=
    Nat.one_le_iff_ne_zero.mpr fun none => some (UInt32.toNat_inj.mp none)
  have tries : (0 : Int) ≤ s.timeout * s.maxAttempts.toNat :=
    Int.mul_nonneg (Int.le_of_lt timeout) (Int.natCast_nonneg _)
  have pauses : (0 : Int) ≤ s.backoffMax * (s.maxAttempts.toNat - 1) :=
    Int.mul_nonneg (Int.le_trans (Int.le_of_lt backoffMin) backoff) (by omega)
  unfold Step.keepReceipts Step.retryWindow receiptRetentionFactor
  rw [max_eq_left (by omega), Int.mul_bmod_bmod]
  exact ⟨by omega, rfl⟩

/-- The check admits only definitions whose receipts are kept long enough, exactly when no
step's time overflows or some step's time is above the retention after it wrapped; without an
overflow it admits all of them. -/
theorem receipt_retention_sound (budgets : StepBudgets) (toLower : String → String)
    (d : Definition) (valid : (budgets.resolve toLower d).validate = .ok ())
    (retention : Duration) (int64 : retention < 2 ^ 63) :
    let steps := (budgets.resolve toLower d).steps
    let admitted := checkReceiptRetention (budgets.resolve toLower d) retention = .ok ()
    let kept := ∀ step ∈ steps, step.keepReceipts ≤ retention
    let fits := ∀ step ∈ steps, step.keepReceipts < 2 ^ 63
    ((admitted → kept) ↔
      fits ∨ ∃ step ∈ steps, retention < Int.bmod step.keepReceipts (2 ^ 64)) ∧
    (fits → (admitted ↔ kept)) := by
  intro steps admitted kept fits
  have wraps (step : Step) (member : step ∈ steps) :=
    keepReceipts_nonneg (Definition.step_valid valid step member)
  have compares : admitted ↔ ∀ step ∈ steps, Int.bmod step.keepReceipts (2 ^ 64) ≤ retention :=
    checkReceiptRetention_ok.trans (forall₂_congr fun step member => by rw [(wraps step member).2])
  have exact_ : fits → (admitted ↔ kept) := fun fits =>
    compares.trans (forall₂_congr fun step member => by
      rw [Int.bmod_eq_of_le (by have := (wraps step member).1; omega)
        (by have := fits step member; omega)])
  refine ⟨⟨fun sound => ?_, ?_⟩, exact_⟩
  · by_cases refused : ∃ step ∈ steps, retention < Int.bmod step.keepReceipts (2 ^ 64)
    · exact .inr refused
    refine .inl fun step member => ?_
    have kept := sound (compares.mpr fun other inside => Int.not_lt.mp fun longer =>
      refused ⟨other, inside, longer⟩) step member
    exact Int.lt_of_le_of_lt kept int64
  · rintro (fits | ⟨step, member, longer⟩) admitted
    · exact (exact_ fits).mp admitted
    · exact absurd (compares.mp admitted step member) (Int.not_le.mpr longer)

def paySaga (timeout : Duration) : Definition :=
  { type := "pay", version := 1,
    steps := [{ name := "debit", forwardTopic := "pay.debit", compensateTopic := "",
                timeout, maxAttempts := 2, backoffMin := 1, backoffMax := 1 }] }

def noBudgets : StepBudgets := { defaults := ⟨0, 0, 0, 0⟩, overrides := ∅ }

theorem receipt_retention_sound_minute :
    checkReceiptRetention (noBudgets.resolve id (paySaga (60 * second))) (300 * second) = .ok () :=
  ((receipt_retention_sound noBudgets id (paySaga (60 * second)) (by decide +kernel)
    (300 * second) (by decide)).2 (by decide +kernel)).mpr (by decide +kernel)

/-- Two attempts of `2 ^ 62` nanoseconds wrap to a window of which the double is two
nanoseconds. -/
theorem wrapped_window_admitted : (noBudgets.resolve id (paySaga (2 ^ 62))).validate = .ok () ∧
      checkReceiptRetention (noBudgets.resolve id (paySaga (2 ^ 62))) second = .ok () ∧
      ∃ step ∈ (noBudgets.resolve id (paySaga (2 ^ 62))).steps, second < step.keepReceipts := by
  decide +kernel

end Roost.Saga
