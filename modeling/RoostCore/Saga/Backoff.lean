import RoostCore.Saga.Transition

/-! The pause before a retry. The loop doubles the minimum once for each further attempt and
stops at the maximum; `Checked` runs the same function with every result held against the range
of `int64`. -/
namespace Roost.Saga
open Go

theorem doubled_succ (maximum d : Int) (rounds : Nat) : doubled maximum (rounds + 1) d =
    if d < maximum then if maximum / 2 < d then maximum else doubled maximum rounds (d * 2)
    else d := rfl

theorem doubled_eq {d maximum : Int} (rounds : Nat) (positive : 0 < d) (below : d ≤ maximum) :
    doubled maximum rounds d = min maximum (d * 2 ^ rounds) := by
  induction rounds generalizing d with
  | zero => simp [doubled, below]
  | succ rounds ih =>
    have power : d * 2 ^ (rounds + 1) = d * 2 * 2 ^ rounds := by rw [Int.pow_succ', Int.mul_assoc]
    have grows : d * 2 ≤ d * 2 * 2 ^ rounds :=
      le_mul_of_one_le_right (by omega) (one_le_pow₀ (by decide))
    rw [doubled_succ, power]
    by_cases small : d ≤ maximum / 2
    · rw [if_pos (by omega), if_neg (by omega), ih (by omega) (by omega)]
    rw [min_eq_left (by omega)]
    by_cases less : d < maximum
    · rw [if_pos less, if_pos (by omega)]
    · rw [if_neg less, below.antisymm (not_lt.mp less)]

def pause (attempt : UInt32) (minimum maximum : Int) : Int :=
  let least := if minimum ≤ 0 then 1000000 else minimum
  min (max least maximum) (least * 2 ^ (attempt.toNat - 1))

def jitter (key : String) (attempt : UInt32) : Int :=
  (fnv32a (key.toUTF8.data.toList ++ binaryPutUint32 attempt)).toNat

def jittered (hash d : Int) : Int := if d ≤ 1 then d else d / 2 + hash % (d - d / 2 + 1)

theorem jittered_between (hash : Int) (positive : 0 < d) :
    d / 2 ≤ jittered hash d ∧ jittered hash d ≤ d := by
  have low := Int.emod_nonneg hash (b := d - d / 2 + 1) (by omega)
  have high := Int.emod_lt_of_pos hash (b := d - d / 2 + 1) (by omega)
  unfold jittered
  split <;> omega

section
variable (key : String) (attempt : UInt32) (minimum maximum : Int)

theorem least_pos : 0 < if minimum ≤ 0 then 1000000 else minimum := by split <;> omega

theorem pause_pos : 0 < pause attempt minimum maximum := by
  have positive := least_pos minimum
  exact lt_min (lt_max_of_lt_left positive) (mul_pos positive (pow_pos (by decide) _))

theorem backoff_eq : backoff key attempt minimum maximum =
    jittered (jitter key attempt) (pause attempt minimum maximum) := by
  have form := doubled_eq (attempt.toNat - 1) (least_pos minimum) (le_max_left _ maximum)
  have whole := min_eq_left (form ▸ min_le_left _ _ : doubled _ _ _ ≤ _)
  exact congrArg (jittered _) (whole.trans form)

end

/-- A result of signed 64-bit arithmetic, unless it leaves the range. -/
def int64 (n : Int) : Option Int := if -2 ^ 63 ≤ n ∧ n < 2 ^ 63 then some n else none

theorem int64_eq (low : -2 ^ 63 ≤ n) (high : n < 2 ^ 63) : int64 n = some n := if_pos ⟨low, high⟩

namespace Checked

def doubled (maximum : Int) : Nat → Int → Option Int
  | 0, d => some d
  | rounds + 1, d =>
      if d < maximum then
        if maximum / 2 < d then some maximum else int64 (d * 2) >>= doubled maximum rounds
      else some d

def jittered (hash d : Int) : Option Int :=
  if d ≤ 1 then some d
  else do
    let rest ← int64 (d - d / 2)
    let bound ← int64 (rest + 1)
    int64 (d / 2 + hash % bound)

def backoff (key : String) (attempt : UInt32) (minimum maximum : Int) : Option Int := do
  let minimum := if minimum ≤ 0 then 1000000 else minimum
  let maximum := if maximum < minimum then minimum else maximum
  let d ← doubled maximum (attempt.toNat - 1) minimum
  jittered (jitter key attempt) (if maximum < d then maximum else d)

theorem doubled_exact {maximum d : Int} (rounds : Nat) (positive : 0 < d) (below : d ≤ maximum)
    (high : maximum < 2 ^ 63) : doubled maximum rounds d = some (Saga.doubled maximum rounds d) := by
  induction rounds generalizing d with
  | zero => rfl
  | succ rounds ih =>
    rw [doubled, doubled_succ]
    split
    · split
      · rfl
      · rw [int64_eq (by omega) (by omega)]
        exact ih (by omega) (by omega)
    · rfl

theorem jittered_exact (hash : Int) (positive : 0 < d) (high : d < 2 ^ 63) :
    jittered hash d = some (Saga.jittered hash d) := by
  have between := jittered_between hash positive
  unfold jittered
  unfold Saga.jittered at between ⊢
  split
  · rfl
  · rw [if_neg ‹_›] at between
    rw [int64_eq (by omega) (by omega), Option.bind_eq_bind, Option.bind_some,
      int64_eq (by omega) (by omega), Option.bind_some]
    exact int64_eq (by omega) (by omega)

theorem backoff_exact (key : String) (attempt : UInt32) {minimum maximum : Int}
    (first : minimum < 2 ^ 63) (last : maximum < 2 ^ 63) :
    backoff key attempt minimum maximum = some (Saga.backoff key attempt minimum maximum) := by
  have positive := least_pos minimum
  have whole := pause_pos attempt minimum maximum
  rw [backoff_eq]
  unfold backoff
  unfold pause at whole ⊢
  generalize least : (if minimum ≤ 0 then 1000000 else minimum) = m at positive whole ⊢
  have most : (if maximum < m then m else maximum) = max m maximum := by omega
  dsimp only at whole ⊢
  rw [most, doubled_exact _ positive (le_max_left _ _) (by omega), Option.bind_eq_bind,
    Option.bind_some, doubled_eq _ positive (le_max_left _ _),
    if_neg (not_lt.mpr (min_le_left _ _)), jittered_exact _ whole (by omega)]

end Checked

/-- The pause lies between half of the doubled minimum, cut off at the maximum, and the whole of
it, and nothing the function computes leaves `int64`. Attempt zero counts as the first. -/
theorem backoff_bounds (key : String) (attempt : UInt32) (minimum maximum : Int64) :
    let m : Int := if 0 < minimum.toInt then minimum.toInt else 1000000
    let d : Int := min (max maximum.toInt m) (m * 2 ^ (max attempt.toNat 1 - 1))
    ∃ r, Checked.backoff key attempt minimum.toInt maximum.toInt = some r ∧
      r = backoff key attempt minimum.toInt maximum.toInt ∧ d / 2 ≤ r ∧ r ≤ d := by
  intro m d
  have form : d = pause attempt minimum.toInt maximum.toInt := by
    have least : m = if minimum.toInt ≤ 0 then 1000000 else minimum.toInt := by
      simp only [m, ← not_le, ite_not]
    have rounds : max attempt.toNat 1 - 1 = attempt.toNat - 1 := by omega
    simp only [d, pause, least, rounds, max_comm maximum.toInt]
  have between := jittered_between (jitter key attempt) (pause_pos attempt minimum.toInt maximum.toInt)
  rw [← backoff_eq, ← form] at between
  exact ⟨_, Checked.backoff_exact key attempt minimum.toInt_lt maximum.toInt_lt, rfl, between⟩

/-- Before the first attempt the pause is not half of the first one. -/
theorem backoff_unattempted : ∃ r, Checked.backoff "saga" 0 1 1 = some r ∧
    ¬ (r : ℚ) ≤ min 1 (1 * 2 ^ ((0 : ℤ) - 1)) := by
  refine ⟨1, rfl, ?_⟩
  norm_num

end Roost.Saga
