import Mathlib.Data.List.Basic

/-! Lists of slots, seen as the one list of what they hold. -/
namespace Roost

/-- What is taken out of one slot is gone from the whole. -/
theorem flatten_set_perm {slots : List (List α)} (split : (taken ++ kept).Perm (slots.getD i [])) :
    (taken ++ (slots.set i kept).flatten).Perm slots.flatten := by
  induction slots generalizing i with
  | nil =>
    have none := List.append_eq_nil_iff.mp (List.Perm.eq_nil split)
    simp [none.1]
  | cons slot rest ih =>
    cases i with
    | zero => simpa using split.append_right rest.flatten
    | succ i => exact (List.perm_append_comm_assoc taken slot _).trans ((ih split).append_left slot)

theorem flatten_modify_perm {slots : List (List α)} (bound : i < slots.length) (a : α) :
    (slots.modify i (· ++ [a])).flatten.Perm (a :: slots.flatten) := by
  induction slots generalizing i with
  | nil => exact absurd bound (Nat.not_lt_zero i)
  | cons slot rest ih =>
    cases i with
    | zero => simp
    | succ i =>
      exact ((ih (Nat.lt_of_succ_lt_succ bound)).append_left slot).trans List.perm_middle

end Roost
