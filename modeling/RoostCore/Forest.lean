import Mathlib.Order.MinMax

/-! Union-find over numbers. Every node points to itself or to a smaller node, so a search
ends; `find` halves the paths it walks, and the root of a class is its least node. -/
namespace Roost

structure Forest where
  parent : Nat → Nat
  le : ∀ i, parent i ≤ i

namespace Forest

variable {f : Forest}

def singletons : Forest := ⟨id, fun _ => Nat.le_refl _⟩

/-- Points a node to one that is not greater. -/
def point (f : Forest) (i p : Nat) (le : p ≤ i) : Forest where
  parent := Function.update f.parent i p
  le j := by
    by_cases here : j = i
    · rw [here, Function.update_self]
      exact le
    · rw [Function.update_of_ne here]
      exact f.le j

@[simp] theorem parent_point_self (le : p ≤ i) : (f.point i p le).parent i = p := by
  simp [point]

theorem parent_point_ne (le : p ≤ i) (other : j ≠ i) : (f.point i p le).parent j = f.parent j := by
  simp [point, other]

theorem parent_lt (moves : f.parent i ≠ i) : f.parent i < i := Nat.lt_of_le_of_ne (f.le i) moves

/-- The node at the end of the path from `i`. -/
def root (f : Forest) (i : Nat) : Nat := if f.parent i = i then i else f.root (f.parent i)
termination_by i
decreasing_by exact parent_lt ‹_›

/-- Walks to the root and points each second node of the path to its grandparent. -/
def find (f : Forest) (i : Nat) : Forest × Nat :=
  if f.parent i = i then (f, i)
  else
    (f.point i (f.parent (f.parent i)) (Nat.le_trans (f.le _) (f.le i))).find (f.parent (f.parent i))
termination_by i
decreasing_by exact Nat.lt_of_le_of_lt (f.le _) (parent_lt ‹_›)

/-- Joins the classes of two nodes under the smaller root. -/
def union (f : Forest) (i j : Nat) : Forest :=
  let (f, a) := f.find i
  let (f, b) := f.find j
  if a = b then f else f.point (max a b) (min a b) (Nat.le_trans (min_le_left a b) (le_max_left a b))

theorem root_of_fix (fix : f.parent i = i) : f.root i = i := by
  unfold root
  rw [if_pos fix]

theorem root_parent (f : Forest) (i : Nat) : f.root (f.parent i) = f.root i := by
  by_cases fix : f.parent i = i
  · rw [fix]
  · exact ((root.eq_def f i).trans (if_neg fix)).symm

theorem parent_root (f : Forest) (i : Nat) : f.parent (f.root i) = f.root i := by
  induction i using Nat.strongRecOn with
  | ind i ih =>
    unfold root
    split
    · assumption
    · exact ih _ (parent_lt ‹_›)

/-- A node that is pointed into its own class leaves all roots as they are. -/
theorem root_point (less : p < i) (same : f.root p = f.root i) (j : Nat) :
    (f.point i p (Nat.le_of_lt less)).root j = f.root j := by
  induction j using Nat.strongRecOn with
  | ind j ih =>
    by_cases here : j = i
    · subst here
      rw [← root_parent, parent_point_self, ih p less, same]
    · have kept := parent_point_ne (f := f) (Nat.le_of_lt less) here
      by_cases fix : f.parent j = j
      · rw [root_of_fix fix, root_of_fix (kept.trans fix)]
      · rw [← root_parent, kept, ih _ (parent_lt fix), root_parent]

/-- A root that is pointed to a smaller root takes its class along. -/
theorem root_point_root (less : p < i) (low : f.parent p = p) (high : f.parent i = i) (j : Nat) :
    (f.point i p (Nat.le_of_lt less)).root j = if f.root j = i then p else f.root j := by
  induction j using Nat.strongRecOn with
  | ind j ih =>
    by_cases here : j = i
    · subst here
      rw [← root_parent, parent_point_self, ih p less, root_of_fix low, root_of_fix high,
        if_neg (Nat.ne_of_lt less), if_pos rfl]
    · have kept := parent_point_ne (f := f) (Nat.le_of_lt less) here
      by_cases fix : f.parent j = j
      · rw [root_of_fix fix, root_of_fix (kept.trans fix), if_neg here]
      · rw [← root_parent, kept, ih _ (parent_lt fix), root_parent]

theorem find_spec (f : Forest) (i : Nat) :
    (f.find i).2 = f.root i ∧ ∀ j, (f.find i).1.root j = f.root j := by
  induction f, i using find.induct with
  | case1 f i fix =>
    unfold find
    rw [if_pos fix]
    exact ⟨(root_of_fix fix).symm, fun _ => rfl⟩
  | case2 f i moves ih =>
    have halved := root_point (Nat.lt_of_le_of_lt (f.le _) (parent_lt moves))
      ((root_parent f (f.parent i)).trans (root_parent f i))
    unfold find
    rw [if_neg moves]
    exact ⟨ih.1.trans ((halved _).trans ((root_parent f (f.parent i)).trans (root_parent f i))),
      fun j => (ih.2 j).trans (halved j)⟩

/-- Searches from several nodes, one after the other. -/
def findAll (f : Forest) : List Nat → Forest × List Nat
  | [] => (f, [])
  | i :: rest =>
      let (f, r) := f.find i
      let (f, roots) := f.findAll rest
      (f, r :: roots)

theorem findAll_spec (f : Forest) (nodes : List Nat) :
    (f.findAll nodes).2 = nodes.map f.root ∧ ∀ j, (f.findAll nodes).1.root j = f.root j := by
  induction nodes generalizing f with
  | nil => exact ⟨rfl, fun _ => rfl⟩
  | cons i rest ih =>
    obtain ⟨first, same⟩ := f.find_spec i
    obtain ⟨others, also⟩ := ih (f.find i).1
    refine ⟨?_, fun j => (also j).trans (same j)⟩
    simp [findAll, first, others, funext same]

theorem root_union (f : Forest) (i j k : Nat) : (f.union i j).root k =
      if f.root k = max (f.root i) (f.root j) then min (f.root i) (f.root j) else f.root k := by
  obtain ⟨first, same⟩ := f.find_spec i
  obtain ⟨second, also⟩ := (f.find i).1.find_spec j
  rw [same] at second
  have roots (k : Nat) : ((f.find i).1.find j).1.root k = f.root k := (also k).trans (same k)
  have fixed (k : Nat) : ((f.find i).1.find j).1.parent (f.root k) = f.root k := by
    rw [← roots k, parent_root]
  simp only [union, first, second]
  split
  · rename_i equal
    rw [roots, equal, max_self, min_self]
    split
    · assumption
    · rfl
  · rename_i distinct
    have less : min (f.root i) (f.root j) < max (f.root i) (f.root j) := min_lt_max.mpr distinct
    have low : ((f.find i).1.find j).1.parent (min (f.root i) (f.root j)) =
        min (f.root i) (f.root j) := by
      rcases min_choice (f.root i) (f.root j) with same | same <;> rw [same] <;> exact fixed _
    have high : ((f.find i).1.find j).1.parent (max (f.root i) (f.root j)) =
        max (f.root i) (f.root j) := by
      rcases max_choice (f.root i) (f.root j) with same | same <;> rw [same] <;> exact fixed _
    rw [root_point_root less low high, roots]

theorem union_joins (f : Forest) (i j : Nat) : (f.union i j).root i = (f.union i j).root j := by
  rw [root_union, root_union]
  grind

theorem union_mono (i j : Nat) (same : f.root x = f.root y) :
    (f.union i j).root x = (f.union i j).root y := by
  rw [root_union, root_union, same]

end Forest
end Roost
