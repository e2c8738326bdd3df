import Mathlib.Data.List.Nodup
import RoostCore.Run

/-! Compare-and-set scripts over a store of keys. A script compares every key with the value
its author read and then writes all of them; it is sent any number of times, and each copy
executes once at any later moment or never. When values never repeat and only a script with
a present base is sent again, no script takes effect twice. -/
namespace Roost.Scripts
open Function
open List hiding after below

/-- One key of a script; an absent base asks for an absent key, an absent next deletes it. -/
structure Write (κ V : Type) where
  key : κ
  base : Option V
  next : Option V
  deriving DecidableEq

structure Script (κ V : Type) where
  id : Nat
  writes : List (Write κ V)
  deriving DecidableEq

variable {κ V : Type} [DecidableEq κ] [DecidableEq V]

namespace Script

/-- Every key has the value that the script expects. -/
def Passes (store : κ → Option V) (script : Script κ V) : Prop :=
  ∀ write ∈ script.writes, store write.key = write.base

instance (store : κ → Option V) (script : Script κ V) : Decidable (script.Passes store) :=
  inferInstanceAs (Decidable (∀ write ∈ script.writes, _))

def apply (store : κ → Option V) (script : Script κ V) : κ → Option V :=
  script.writes.foldl (fun store write => update store write.key write.next) store

/-- Some key is expected to be present. -/
def Based (script : Script κ V) : Prop := ∃ write ∈ script.writes, write.base ≠ none

end Script

omit [DecidableEq V] in
theorem foldl_update_other {writes : List (Write κ V)} (store : κ → Option V)
    (untouched : ∀ write ∈ writes, write.key ≠ k) :
    writes.foldl (fun store write => update store write.key write.next) store k = store k := by
  induction writes generalizing store with
  | nil => rfl
  | cons write rest ih =>
    obtain ⟨here, later⟩ := forall_mem_cons.mp untouched
    rw [foldl_cons, ih _ later, update_of_ne here.symm]

omit [DecidableEq V] in
theorem foldl_update_mem {writes : List (Write κ V)} (store : κ → Option V) (distinct : (writes.map Write.key).Nodup)
    {write : Write κ V} (member : write ∈ writes) :
    writes.foldl (fun store write => update store write.key write.next) store write.key = write.next := by
  induction writes generalizing store with
  | nil => contradiction
  | cons first rest ih =>
    obtain ⟨fresh, later⟩ := nodup_cons.mp distinct
    rw [foldl_cons]
    rcases mem_cons.mp member with rfl | behind
    · rw [foldl_update_other, update_self]
      intro other present same
      exact fresh (mem_map.mpr ⟨other, present, same⟩)
    · exact ih _ later behind

/-- The store with the scripts that were written down, the copies that may still execute and
the scripts that took effect. -/
structure Ledger (κ V : Type) where
  store : κ → Option V
  registry : List (Script κ V)
  copies : Script κ V → Nat
  log : List (Script κ V)

namespace Ledger

def empty : Ledger κ V := ⟨fun _ => none, [], fun _ => 0, []⟩

def Wrote (l : Ledger κ V) (script : Script κ V) (write : Write κ V) : Prop :=
  script ∈ l.log ∧ write ∈ script.writes

def send (l : Ledger κ V) (script : Script κ V) : Ledger κ V :=
  { l with copies := update l.copies script (l.copies script + 1) }

def execute (l : Ledger κ V) (script : Script κ V) : Ledger κ V :=
  let spent := update l.copies script (l.copies script - 1)
  if script.Passes l.store then
    { l with store := script.apply l.store, log := l.log ++ [script], copies := spent }
  else { l with copies := spent }

end Ledger

/-- What may happen to the ledger. A new script rests on values that were written before
and writes values that no other script writes. -/
inductive Move (l : Ledger κ V) : Ledger κ V → Prop
  | stay : Move l l
  | register (writes : List (Write κ V)) (distinct : (writes.map Write.key).Nodup)
      (grounded : ∀ write ∈ writes, ∀ value, write.base = some value →
        ∃ script origin, l.Wrote script origin ∧ origin.key = write.key ∧ origin.next = some value)
      (fresh : ∀ write ∈ writes, ∀ value, write.next = some value →
        ∀ script ∈ l.registry, ∀ other ∈ script.writes, other.next ≠ some value) :
      Move l { l with registry := l.registry ++ [⟨l.registry.length, writes⟩] }
  | first (script : Script κ V) (known : script ∈ l.registry) (unsent : l.copies script = 0)
      (unexecuted : script ∉ l.log) : Move l (l.send script)
  | again (script : Script κ V) (known : script ∈ l.registry) (based : script.Based) : Move l (l.send script)
  | execute (script : Script κ V) (present : 0 < l.copies script) : Move l (l.execute script)

/-- No value comes back: a value that a script has replaced is gone for good. -/
structure Lasting (l : Ledger κ V) : Prop where
  ids : ∀ script ∈ l.registry, l.registry[script.id]? = some script
  known : ∀ script, 0 < l.copies script ∨ script ∈ l.log → script ∈ l.registry
  distinct : ∀ script ∈ l.registry, (script.writes.map Write.key).Nodup
  grounded : ∀ script ∈ l.registry, ∀ write ∈ script.writes, ∀ value, write.base = some value →
    ∃ earlier origin, l.Wrote earlier origin ∧ earlier.id < script.id ∧ origin.key = write.key ∧
      origin.next = some value
  unique : ∀ script ∈ l.registry, ∀ other ∈ l.registry, ∀ write ∈ script.writes, ∀ second ∈ other.writes,
    ∀ value, write.next = some value → second.next = some value → script = other
  stored : ∀ k value, l.store k = some value →
    ∃ script write, l.Wrote script write ∧ write.key = k ∧ write.next = some value
  past : ∀ script write, l.Wrote script write → ∀ value, write.base = some value → l.store write.key ≠ some value
  replaced : ∀ script write other second, l.Wrote script write → l.Wrote other second → write.key = second.key →
    ∀ value, write.base = some value → second.base = some value → script = other
  single : ∀ script, ¬ script.Based → l.copies script + l.log.count script ≤ 1
  once : l.log.Nodup

namespace Lasting
variable {l : Ledger κ V}

theorem empty : Lasting (Ledger.empty : Ledger κ V) := by
  constructor <;> simp [Ledger.empty, Ledger.Wrote]

variable {script : Script κ V}

/-- A script that has taken effect cannot pass again. -/
theorem not_executed (lasting : Lasting l) (present : 0 < l.copies script)
    (passes : script.Passes l.store) : script ∉ l.log := by
  intro executed
  by_cases based : script.Based
  · obtain ⟨write, member, some⟩ := based
    obtain ⟨value, base⟩ := Option.ne_none_iff_exists'.mp some
    exact lasting.past script write ⟨executed, member⟩ value base ((passes write member).trans base)
  · have single := lasting.single script based
    have counted := count_pos_iff.mpr executed
    omega

/-- A script does not write a value back that another has replaced. -/
theorem not_restored (lasting : Lasting l) (present : 0 < l.copies script)
    (passes : script.Passes l.store) (member : write ∈ script.writes)
    (next : write.next = some value) (known : other ∈ l.registry) (reads : second ∈ other.writes) :
    second.base ≠ some value := by
  intro base
  obtain ⟨earlier, origin, wrote, -, -, same⟩ := lasting.grounded other known second reads value base
  have registered := lasting.known script (.inl present)
  have equal := lasting.unique script registered earlier (lasting.known earlier (.inr wrote.1)) write member origin
    wrote.2 value next same
  exact lasting.not_executed present passes (equal ▸ wrote.1)

theorem apply_mem (lasting : Lasting l) (known : script ∈ l.registry) {write : Write κ V}
    (member : write ∈ script.writes) : script.apply l.store write.key = write.next :=
  foldl_update_mem l.store (lasting.distinct script known) member

omit [DecidableEq V] in
theorem apply_other {store : κ → Option V} (untouched : ∀ write ∈ script.writes, write.key ≠ k) :
    script.apply store k = store k :=
  foldl_update_other store untouched

section
variable (lasting : Lasting l)
include lasting

/-- What the store holds after an execution: a write of the script or what it held before. -/
theorem apply_cases (known : script ∈ l.registry) (k : κ) :
    (∃ write ∈ script.writes, write.key = k ∧ script.apply l.store k = write.next) ∨
      (∀ write ∈ script.writes, write.key ≠ k) ∧ script.apply l.store k = l.store k := by
  by_cases touched : ∃ write ∈ script.writes, write.key = k
  · obtain ⟨write, member, rfl⟩ := touched
    exact .inl ⟨write, member, rfl, lasting.apply_mem known member⟩
  · have untouched : ∀ write ∈ script.writes, write.key ≠ k := by
      intro write member same
      exact touched ⟨write, member, same⟩
    exact .inr ⟨untouched, apply_other untouched⟩

theorem execute (present : 0 < l.copies script)
    (passes : script.Passes l.store) :
    Lasting { l with
      store := script.apply l.store
      log := l.log ++ [script]
      copies := update l.copies script (l.copies script - 1) } := by
  have known := lasting.known script (.inl present)
  have unexecuted := lasting.not_executed present passes
  have kept : ∀ {other write}, l.Wrote other write → other ∈ l.log ++ [script] ∧ write ∈ other.writes :=
    fun wrote => ⟨mem_append_left _ wrote.1, wrote.2⟩
  constructor
  · exact lasting.ids
  · intro other evidence
    by_cases same : other = script
    · exact same ▸ known
    · apply lasting.known other
      simpa [update_of_ne same, same] using evidence
  · exact lasting.distinct
  · intro other registered write member value base
    obtain ⟨earlier, origin, wrote, rest⟩ := lasting.grounded other registered write member value base
    exact ⟨earlier, origin, kept wrote, rest⟩
  · exact lasting.unique
  · intro k value holds
    rcases lasting.apply_cases known k with ⟨write, member, here, next⟩ | ⟨-, same⟩
    · exact ⟨script, write, ⟨by simp, member⟩, here, next.symm.trans holds⟩
    · obtain ⟨other, write, wrote, rest⟩ := lasting.stored k value (same.symm.trans holds)
      exact ⟨other, write, kept wrote, rest⟩
  · intro other write wrote value base holds
    have registered : other ∈ l.registry := by
      rcases mem_snoc.mp wrote.1 with old | rfl
      · exact lasting.known other (.inr old)
      · exact known
    rcases lasting.apply_cases known write.key with ⟨mine, member, -, next⟩ | ⟨untouched, same⟩
    · exact lasting.not_restored present passes member (next.symm.trans holds) registered wrote.2 base
    rcases mem_snoc.mp wrote.1 with old | rfl
    · exact lasting.past other write ⟨old, wrote.2⟩ value base (same.symm.trans holds)
    · exact untouched write wrote.2 rfl
  · intro one write other second wrote writes key value base same
    have alone : ∀ {write second : Write κ V} {other : Script κ V}, write ∈ script.writes → l.Wrote other second →
        write.key = second.key → write.base = some value → second.base ≠ some value := by
      intro write second other member older key base same
      refine lasting.past other second older value same ?_
      rw [← key, passes write member, base]
    rcases mem_snoc.mp wrote.1 with old | rfl <;> rcases mem_snoc.mp writes.1 with older | rfl
    · exact lasting.replaced one write other second ⟨old, wrote.2⟩ ⟨older, writes.2⟩ key value base same
    · exact absurd base (alone writes.2 ⟨old, wrote.2⟩ key.symm same)
    · exact absurd same (alone wrote.2 ⟨older, writes.2⟩ key base)
    · rfl
  · intro other unbased
    have single := lasting.single other unbased
    by_cases same : other = script
    · subst same
      simp only [update_self, count_append, count_cons_self, count_nil]
      omega
    · simpa [update_of_ne same, count_append, count_singleton, Ne.symm same] using single
  · simp only [nodup_append, nodup_singleton, mem_singleton, true_and]
    refine ⟨lasting.once, ?_⟩
    rintro other member mine rfl rfl
    exact unexecuted member

theorem send (known : script ∈ l.registry)
    (allowed : script.Based ∨ l.copies script = 0 ∧ script ∉ l.log) : Lasting (l.send script) := by
  refine { lasting with known := ?_, single := ?_ }
  · intro other evidence
    by_cases same : other = script
    · exact same ▸ known
    · apply lasting.known other
      simpa [Ledger.send, update_of_ne same] using evidence
  · intro other unbased
    by_cases same : other = script
    · subst same
      obtain ⟨unsent, unexecuted⟩ := allowed.resolve_left unbased
      simp [Ledger.send, unsent, count_eq_zero_of_not_mem unexecuted]
    · simpa [Ledger.send, update_of_ne same] using lasting.single other unbased

theorem register (writes : List (Write κ V)) (distinct : (writes.map Write.key).Nodup)
    (grounded : ∀ write ∈ writes, ∀ value, write.base = some value →
      ∃ script origin, l.Wrote script origin ∧ origin.key = write.key ∧ origin.next = some value)
    (fresh : ∀ write ∈ writes, ∀ value, write.next = some value →
      ∀ script ∈ l.registry, ∀ other ∈ script.writes, other.next ≠ some value) :
    Lasting { l with registry := l.registry ++ [⟨l.registry.length, writes⟩] } := by
  have below : ∀ script ∈ l.registry, script.id < l.registry.length := by
    intro script member
    exact (List.getElem?_eq_some_iff.mp (lasting.ids script member)).1
  refine { lasting with ids := ?_, known := ?_, distinct := ?_, grounded := ?_, unique := ?_ }
  · intro script member
    rcases mem_snoc.mp member with old | rfl
    · rw [getElem?_append_left (below script old)]
      exact lasting.ids script old
    · simp
  · intro script evidence
    exact mem_append_left _ (lasting.known script evidence)
  · intro script member
    rcases mem_snoc.mp member with old | rfl
    · exact lasting.distinct script old
    · exact distinct
  · intro script member write reads value base
    rcases mem_snoc.mp member with old | rfl
    · exact lasting.grounded script old write reads value base
    · obtain ⟨earlier, origin, wrote, rest⟩ := grounded write reads value base
      exact ⟨earlier, origin, wrote, below earlier (lasting.known earlier (.inr wrote.1)), rest⟩
  · intro script member other second write writes' mine theirs value next same
    rcases mem_snoc.mp member with old | rfl <;> rcases mem_snoc.mp second with older | rfl
    · exact lasting.unique script old other older write writes' mine theirs value next same
    · exact absurd next (fresh mine theirs value same script old write writes')
    · exact absurd same (fresh write writes' value next other older mine theirs)
    · rfl

theorem move (moved : Move l after) : Lasting after := by
  cases moved with
  | stay => exact lasting
  | register writes distinct grounded fresh => exact lasting.register writes distinct grounded fresh
  | first script known unsent unexecuted => exact lasting.send known (.inr ⟨unsent, unexecuted⟩)
  | again script known based => exact lasting.send known (.inl based)
  | execute script present =>
    simp only [Ledger.execute]
    split
    · rename_i passes
      exact lasting.execute present passes
    refine { lasting with known := ?_, single := ?_ }
    · intro other evidence
      by_cases same : other = script
      · exact same ▸ lasting.known script (.inl present)
      · apply lasting.known other
        simpa [update_of_ne same] using evidence
    · intro other unbased
      have single := lasting.single other unbased
      by_cases same : other = script
      · subst same
        simp only [update_self]
        omega
      · simpa [update_of_ne same] using single

end

end Lasting

/-- A value that the script expects was replaced by an executed script. -/
def Superseded (l : Ledger κ V) (script : Script κ V) : Prop :=
  ∃ write ∈ script.writes, ∃ value, write.base = some value ∧
    ∃ other second, l.Wrote other second ∧ second.key = write.key ∧ second.base = some value

theorem Superseded.not_passes {l : Ledger κ V} (superseded : Superseded l script)
    (lasting : Lasting l) : ¬ script.Passes l.store := by
  intro passes
  obtain ⟨write, member, value, base, other, second, wrote, key, same⟩ := superseded
  have holds := passes write member
  rw [base, ← key] at holds
  exact lasting.past other second wrote value same holds

omit [DecidableEq κ] [DecidableEq V] in
theorem getElem?_of_take {list : List α} {n i : Nat} (found : (list.take n)[i]? = some x) :
    list[i]? = some x := by
  rw [getElem?_take] at found
  split at found
  · exact found
  · contradiction

section trail
variable {τ : Type} (trail : V → List τ)

/-- Every value carries the mark of its own write, followed by some of the marks of the
value it was written over; no two values start with the same mark. -/
structure Trailed (l : Ledger κ V) : Prop where
  extends_base : ∀ script ∈ l.registry, ∀ write ∈ script.writes, ∀ value, write.next = some value →
    ∃ mark kept, trail value = mark :: ((write.base.map trail).getD []).take kept
  head_unique : ∀ script ∈ l.registry, ∀ other ∈ l.registry, ∀ write ∈ script.writes, ∀ second ∈ other.writes,
    ∀ value same, write.next = some value → second.next = some same →
    (trail value).head? = (trail same).head? → value = same

variable {trail} {l : Ledger κ V}

/-- The trail of an executed write, from any of its marks on, begins that of the executed write
whose mark it is. -/
theorem Trailed.origin (trailed : Trailed trail l) (lasting : Lasting l) {script : Script κ V}
    (wrote : l.Wrote script write) (next : write.next = some value) {i : Nat}
    (at_i : (trail value)[i]? = some mark) :
    ∃ other second same, l.Wrote other second ∧ second.key = write.key ∧ second.next = some same ∧
      ∀ j m, (trail value)[i + j]? = some m → (trail same)[j]? = some m := by
  -- the scripts below a value are older, so the induction is on their numbers
  induction h : script.id using Nat.strongRecOn generalizing script write value i with
  | _ n ih =>
    have known := lasting.known script (.inr wrote.1)
    obtain ⟨own, kept, shape⟩ := trailed.extends_base script known write wrote.2 value next
    cases i with
    | zero => exact ⟨script, write, value, wrote, rfl, next, fun j m held => by rwa [Nat.zero_add] at held⟩
    | succ i =>
      cases base : write.base with
      | none => simp [shape, base] at at_i
      | some below =>
        obtain ⟨earlier, origin, older, smaller, key, same⟩ :=
          lasting.grounded script known write wrote.2 below base
        have deeper (j : Nat) (m : τ) (held : (trail value)[j + 1]? = some m) : (trail below)[j]? = some m := by
          rw [shape, getElem?_cons_succ, base] at held
          exact getElem?_of_take held
        obtain ⟨other, second, reached, found, sameKey, written, rest⟩ :=
          ih earlier.id (h ▸ smaller) older same (deeper i mark at_i) rfl
        refine ⟨other, second, reached, found, sameKey.trans key, written, fun j m held => ?_⟩
        exact rest j m (deeper (i + j) m (by rwa [Nat.add_right_comm] at held))

/-- The mark in front of another one was written over the value of that other one. -/
theorem Trailed.mark_over (trailed : Trailed trail l) (lasting : Lasting l) {script : Script κ V}
    (wrote : l.Wrote script write) (next : write.next = some value) {i : Nat}
    (at_i : (trail value)[i]? = some mark) (below_i : (trail value)[i + 1]? = some before) :
    ∃ other second, l.Wrote other second ∧ second.key = write.key ∧
      (∃ same, second.next = some same ∧ (trail same).head? = some mark) ∧
      ∃ base, second.base = some base ∧ (trail base).head? = some before := by
  obtain ⟨other, second, same, found, key, written, rest⟩ := trailed.origin lasting wrote next at_i
  obtain ⟨own, kept, shape⟩ :=
    trailed.extends_base other (lasting.known other (.inr found.1)) second found.2 same written
  have behind := rest 1 before below_i
  rw [shape, getElem?_cons_succ] at behind
  refine ⟨other, second, found, key, ⟨same, written, head?_eq_getElem? ▸ rest 0 mark at_i⟩, ?_⟩
  cases base : second.base with
  | none => simp [base] at behind
  | some below =>
    rw [base] at behind
    exact ⟨below, rfl, head?_eq_getElem? ▸ getElem?_of_take behind⟩

end trail

end Roost.Scripts
