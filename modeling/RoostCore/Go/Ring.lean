import Mathlib.Data.List.Basic

/-! A fixed ring that keeps the most recent values. -/
namespace Roost.Go
open List

/-- `next` is the cell that is written next, `count` the number of cells in use. -/
structure Ring (α : Type) where
  cells : List α
  count : Nat := 0
  next : Nat := 0

namespace Ring
variable {α : Type} {r : Ring α} {pushed : List α}

def push (r : Ring α) (value : α) : Ring α where
  cells := r.cells.set r.next value
  count := if r.count < r.cells.length then r.count + 1 else r.count
  next := (r.next + 1) % r.cells.length

/-- The values from the oldest to the newest. -/
def values [Inhabited α] (r : Ring α) : List α :=
  let start := (r.next + r.cells.length - r.count) % r.cells.length
  (range r.count).map fun i => r.cells.getD ((start + i) % r.cells.length) default

/-- The ring after some values were pushed to an empty one. -/
structure Holds (r : Ring α) (pushed : List α) : Prop where
  room : 0 < r.cells.length
  count : r.count = min pushed.length r.cells.length
  next : r.next = pushed.length % r.cells.length
  cells : ∀ i < pushed.length, pushed.length ≤ i + r.cells.length →
    r.cells[i % r.cells.length]? = pushed[i]?

theorem holds_empty {cells : List α} (room : 0 < cells.length) : Holds { cells } [] :=
  ⟨room, by simp, by simp, nofun⟩

theorem Holds.push (holds : Holds r pushed) (value : α) :
    Holds (r.push value) (pushed ++ [value]) := by
  have room := holds.room
  have length : (r.push value).cells.length = r.cells.length := length_set
  refine ⟨length ▸ room, ?_, ?_, fun i bound recent => ?_⟩
  · rw [length, length_append, length_singleton, Ring.push, holds.count]
    dsimp only
    split <;> omega
  · rw [length, length_append, length_singleton, Ring.push, holds.next]
    simp
  · rw [length] at recent ⊢
    rw [length_append, length_singleton] at bound recent
    rw [Ring.push]
    rw [holds.next]
    by_cases last : i = pushed.length
    · subst last
      rw [getElem?_set_self (Nat.mod_lt _ room)]
      simp
    -- the value lies less than a whole turn behind the cell that is written
    have turn : i % r.cells.length ≠ pushed.length % r.cells.length := by
      intro same
      have gap : pushed.length - i < r.cells.length := by omega
      have whole := Nat.sub_mod_eq_zero_of_mod_eq same.symm
      rw [Nat.mod_eq_of_lt gap] at whole
      omega
    rw [getElem?_set_ne (Ne.symm turn), holds.cells i (by omega) (by omega),
      getElem?_append_left (by omega)]

theorem Holds.values [Inhabited α] (holds : Holds r pushed) :
    r.values = pushed.drop (pushed.length - r.cells.length) := by
  have first : pushed.length - r.count = pushed.length - r.cells.length := by
    rw [holds.count]
    omega
  have start : (r.next + r.cells.length - r.count) % r.cells.length =
      (pushed.length - r.count) % r.cells.length := by
    have most : r.count ≤ r.cells.length := by
      rw [holds.count]
      omega
    have few : r.count ≤ pushed.length := by
      rw [holds.count]
      omega
    have turns : r.cells.length * (pushed.length / r.cells.length) + r.next = pushed.length := by
      rw [holds.next]
      exact Nat.div_add_mod _ _
    have shifted : pushed.length - r.count + r.cells.length =
        r.next + r.cells.length - r.count + r.cells.length * (pushed.length / r.cells.length) := by
      omega
    rw [← Nat.add_mod_right (pushed.length - r.count), shifted, Nat.add_mul_mod_self_left]
  refine ext_getElem? fun i => ?_
  rw [Ring.values, start, getElem?_map, getElem?_drop, ← first]
  by_cases inside : i < r.count
  · have bound : pushed.length - r.count + i < pushed.length := by
      have := holds.count
      omega
    rw [getElem?_range inside, Option.map_some, Nat.mod_add_mod, getD_eq_getElem?_getD,
      holds.cells _ bound (by omega), getElem?_eq_getElem bound]
    rfl
  · have past : pushed.length ≤ pushed.length - r.count + i := by omega
    rw [getElem?_eq_none (by simpa using inside), getElem?_eq_none past]
    rfl

end Ring

end Roost.Go
