import Mathlib.Algebra.Order.Ring.Int

/-! Readers of byte strings. A reader takes a value off the front of its input; `Reads`
says that it reads a text whatever follows, which is what makes formats compose. -/
namespace Roost.Go

abbrev Bytes := List UInt8

instance : LawfulBEq Bytes := inferInstance

abbrev Reader (ε : Type) := StateT Bytes (Except ε)

variable {ε α β : Type}

/-- The reader takes exactly `text` off its input and returns `value`. -/
def Reads (r : Reader ε α) (text : Bytes) (value : α) : Prop :=
  ∀ rest, r (text ++ rest) = .ok (value, rest)

namespace Reader

/-- Fails when the condition holds. -/
def refuse (condition : Prop) [Decidable condition] (err : ε) : Reader ε Unit := fun data =>
  if condition then .error err else .ok ((), data)

def remaining : Reader ε Nat := fun data => .ok (data.length, data)

def byte (short : ε) : Reader ε UInt8
  | [] => .error short
  | head :: rest => .ok (head, rest)

def take (count : Nat) (short : ε) : Reader ε Bytes := fun data =>
  if data.length < count then .error short else .ok (data.take count, data.drop count)

/-- The next `count` bytes, with their number. -/
def exactly (count : Nat) (short : ε) : Reader ε { bytes : Bytes // bytes.length = count } :=
  fun data =>
    if enough : count ≤ data.length then
      .ok (⟨data.take count, List.length_take_of_le enough⟩, data.drop count)
    else .error short

def ofExcept (value : Except ε α) : Reader ε α := fun data => value.map fun value => (value, data)

def times (r : Reader ε α) : Nat → Reader ε (List α)
  | 0 => pure []
  | count + 1 => do
      let head ← r
      let tail ← times r count
      return head :: tail

theorem bind_eq {r : Reader ε α} (read : r data = .ok (x, rest)) : (r >>= f) data = f x rest := by
  change (r data).bind _ = _
  rw [read]
  rfl

theorem refuse_bind [Decidable condition] {err : ε} (holds : ¬ condition) :
    (refuse condition err >>= f) data = f () data :=
  bind_eq (if_neg holds)

theorem ofExcept_bind {value : Except ε α} (holds : value = .ok x) :
    (ofExcept value >>= f) data = f x data := by
  subst holds
  exact bind_eq rfl

end Reader

namespace Reads

theorem pure (value : α) : Reads (Pure.pure value : Reader ε α) [] value := fun _ => rfl

variable {r : Reader ε α}

theorem bind (head : Reads r a x) (tail : Reads (f x) b y) : Reads (r >>= f) (a ++ b) y := by
  intro after
  have read := head (b ++ after)
  rw [← List.append_assoc] at read
  change (r (a ++ b ++ after)).bind _ = _
  rw [read]
  exact tail after

variable {text : Bytes}

/-- The last reader of a sequence is followed by nothing but a result. -/
theorem result {f : α → β} (read : Reads r text x) :
    Reads (r >>= fun x => Pure.pure (f x)) text (f x) := by
  have whole := read.bind (f := fun x => Pure.pure (f x)) (pure (f x))
  rwa [List.append_nil] at whole

theorem last (read : Reads r text x) (tail : Reads (f x) [] y) : Reads (r >>= f) text y := by
  have whole := read.bind tail
  rwa [List.append_nil] at whole

theorem refuse [Decidable condition] (holds : ¬ condition) (tail : Reads (f ()) text y) :
    Reads (Reader.refuse condition err >>= f) text y := by
  refine bind (a := []) (fun rest => ?_) tail
  simp [Reader.refuse, holds]

/-- What a reader does with the number of bytes left, which is at least that of its text. -/
theorem remaining (tail : ∀ left, text.length ≤ left → Reads (f left) text y) :
    Reads (Reader.remaining >>= f) text y := by
  intro after
  exact tail (text ++ after).length (by simp) after

theorem byte (value : UInt8) : Reads (Reader.byte short) [value] value := fun _ => rfl

theorem take (length : text.length = count) : Reads (Reader.take count short) text text := by
  intro rest
  subst length
  simp [Reader.take]

theorem exactly (value : { bytes : Bytes // bytes.length = count }) :
    Reads (Reader.exactly count short) value.1 value := by
  intro rest
  obtain ⟨bytes, rfl⟩ := value
  simp [Reader.exactly]

theorem ofExcept (holds : value = .ok x) (tail : Reads (f x) text y) :
    Reads (Reader.ofExcept value >>= f) text y := by
  subst holds
  exact bind (a := []) (fun rest => rfl) tail

theorem times {write : α → Bytes} (each : ∀ value ∈ values, Reads r (write value) value) :
    Reads (r.times values.length) (values.flatMap write) values := by
  induction values with
  | nil => exact pure []
  | cons head tail ih =>
    refine (each head List.mem_cons_self).bind (result (f := (head :: ·)) (ih fun value member => ?_))
    exact each value (List.mem_cons_of_mem _ member)

theorem whole (read : Reads r text value) : r text = .ok (value, []) := by
  simpa using read []

end Reads

end Roost.Go
