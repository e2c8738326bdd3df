import Mathlib.Algebra.Order.Ring.Int
import Mathlib.Data.List.AList

/-! Go maps as association lists with distinct keys. Iteration order is not
observable in the modelled code, so only lookups are specified. -/
namespace Roost.Go
open List

/-- A Go `map[K]V`. -/
abbrev Table (K V : Type) [DecidableEq K] := AList (fun _ : K => V)

namespace Table
variable {K V : Type} [DecidableEq K]

/-- The entry of a key, `none` when the map has none. -/
def get (table : Table K V) (key : K) : Option V := AList.lookup key table

/-- The assignment `table[key] = value`. -/
def set (table : Table K V) (key : K) (value : V) : Table K V := AList.insert key value table

/-- The built-in `delete`. -/
def remove (table : Table K V) (key : K) : Table K V := AList.erase key table

/-- A loop that assigns pairs, one after the other. -/
def setAll (table : Table K V) (entries : List (K × V)) : Table K V :=
  entries.foldl (fun table pair => table.set pair.1 pair.2) table

/-- The pairs a `range` loop visits, in some order. -/
def pairs (table : Table K V) : List (K × V) := table.entries.map (fun entry => (entry.1, entry.2))

@[simp] theorem get_empty (key : K) : get (∅ : Table K V) key = none := AList.lookup_empty key

section
variable (table : Table K V)

@[simp] theorem get_set_self (key : K) (value : V) :
    (table.set key value).get key = some value := AList.lookup_insert table

theorem get_set_ne (value : V) (distinct : other ≠ key) :
    (table.set key value).get other = table.get other := AList.lookup_insert_ne distinct

theorem get_set (key other : K) (value : V) :
    (table.set key value).get other = if other = key then some value else table.get other := by
  split
  · rename_i same
    rw [same, get_set_self]
  · rename_i distinct
    exact get_set_ne table value distinct

@[simp] theorem get_remove_self (key : K) :
    (table.remove key).get key = none := AList.lookup_erase key table

theorem get_remove_ne (distinct : other ≠ key) :
    (table.remove key).get other = table.get other := AList.lookup_erase_ne distinct

theorem remove_absent {table : Table K V} (absent : table.get key = none) :
    table.remove key = table :=
  AList.ext (kerase_of_notMem_keys (AList.lookup_eq_none.mp absent))

def assign (table : Table K V) (key : K) : Option V → Table K V
  | none => table.remove key
  | some value => table.set key value

theorem get_assign (key other : K) (entry : Option V) :
    (table.assign key entry).get other = if other = key then entry else table.get other := by
  cases entry with
  | none =>
    rw [assign]
    split
    · rename_i same
      rw [same, get_remove_self]
    · rename_i distinct
      exact get_remove_ne table distinct
  | some value => exact get_set table key other value

end

variable {table : Table K V}

theorem mem_pairs : (key, value) ∈ table.pairs ↔ table.get key = some value := by
  have found := AList.mem_lookup_iff (a := key) (b := value) (s := table)
  simp only [get, ← Option.mem_def, found]
  simp only [pairs, mem_map, Prod.mk.injEq]
  constructor
  · rintro ⟨entry, member, rfl, rfl⟩
    exact member
  · exact fun member => ⟨_, member, rfl, rfl⟩

theorem map_fst_pairs (table : Table K V) : table.pairs.map Prod.fst = table.keys := by
  simp [pairs, AList.keys, keys]

theorem pairs_nodup (table : Table K V) : (table.pairs.map Prod.fst).Nodup := by
  rw [map_fst_pairs]
  exact table.keys_nodup

theorem length_pairs (table : Table K V) : table.pairs.length = table.keys.length := by
  rw [← map_fst_pairs, length_map]

theorem mem_keys_iff : key ∈ table.keys ↔ (table.get key).isSome = true :=
  AList.lookup_isSome.symm

theorem get_setAll (other : key ∉ entries.map Prod.fst) :
    (setAll table entries).get key = table.get key := by
  induction entries generalizing table with
  | nil => rfl
  | cons pair rest ih =>
    rw [map_cons, mem_cons, not_or] at other
    exact (ih other.2).trans (get_set_ne _ _ other.1)

theorem get_setAll_mem (distinct : (entries.map Prod.fst).Nodup) (member : (key, value) ∈ entries) :
    (setAll table entries).get key = some value := by
  induction entries generalizing table with
  | nil => exact absurd member not_mem_nil
  | cons pair rest ih =>
    rw [map_cons, nodup_cons] at distinct
    rcases mem_cons.mp member with rfl | later
    · exact (get_setAll distinct.1).trans (get_set_self _ key value)
    · exact ih distinct.2 later

theorem length_set (fresh : table.get key = none) :
    (table.set key value).pairs.length = table.pairs.length + 1 := by
  have absent : key ∉ table.keys := by
    rw [mem_keys_iff, fresh]
    simp
  rw [length_pairs, length_pairs, set, AList.keys_insert, length_cons,
    erase_of_not_mem absent]

theorem length_set_held (held : table.get key = some old) :
    (table.set key value).pairs.length = table.pairs.length := by
  have member : key ∈ table.keys := by
    rw [mem_keys_iff, held]
    rfl
  have positive := length_pos_of_mem member
  rw [length_pairs, length_pairs, set, AList.keys_insert, length_cons,
    length_erase_of_mem member]
  omega

theorem length_remove (held : table.get key = some value) :
    table.pairs.length = (table.remove key).pairs.length + 1 := by
  have member : key ∈ table.keys := by
    rw [mem_keys_iff, held]
    rfl
  have positive := length_pos_of_mem member
  rw [length_pairs, length_pairs, remove, AList.keys_erase, length_erase_of_mem member]
  omega

theorem length_le_of_keys {a b : Table K V}
    (inside : ∀ key, (a.get key).isSome = true → (b.get key).isSome = true) :
    a.pairs.length ≤ b.pairs.length := by
  rw [length_pairs, length_pairs]
  refine (subperm_of_subset a.keys_nodup fun key member => ?_).length_le
  exact mem_keys_iff.mpr (inside key (mem_keys_iff.mp member))

theorem get_of_empty (empty : table.pairs.length = 0) (key : K) : table.get key = none := by
  cases found : table.get key with
  | none => rfl
  | some value =>
    have := length_remove found
    omega

end Table
end Roost.Go
