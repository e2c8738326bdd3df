import RoostCore.Go.Reader

/-! Writers that can fail. A format is a list of pieces that are put one after the other,
and `Writes` says that whatever the pieces come to, a reader takes it off its input. -/
namespace Roost.Go
open List

variable {ε δ α β γ : Type}

/-- The pieces one after the other. The first failure is the failure of the whole. -/
def joined : List (Except ε Bytes) → Except ε Bytes
  | [] => .ok []
  | piece :: rest => do
      let head ← piece
      let tail ← joined rest
      return head ++ tail

/-- A piece of no bytes that fails unless the condition holds. -/
def checked (condition : Prop) [Decidable condition] (err : ε) : Except ε Bytes :=
  if condition then .ok [] else .error err

/-- A validation as a piece of no bytes. -/
def validated (check : Except ε Unit) : Except ε Bytes := check.map fun _ => []

/-- What the writer produces is read back as the value. -/
def Writes (w : Except ε Bytes) (r : Reader δ α) (value : α) : Prop :=
  ∀ text, w = .ok text → Reads r text value

/-- A check: fails when the condition holds. -/
def refuse (condition : Prop) [Decidable condition] (err : ε) : Except ε Unit :=
  if condition then .error err else .ok ()

theorem bind_ok {x : Except ε α} (passed : (x >>= f) = .ok y) : ∃ a, x = .ok a ∧ f a = .ok y := by
  cases x with
  | error err => cases passed
  | ok a => exact ⟨a, rfl, passed⟩

theorem refuse_ok [Decidable condition] (passed : refuse condition err = .ok ()) : ¬ condition := by
  intro holds
  rw [refuse, if_pos holds] at passed
  cases passed

/-- The rest of a function after an early return with an error. -/
theorem guard_ok {condition : Prop} [Decidable condition] {x : Except ε α}
    (passed : (if condition then .error err else x) = .ok y) : ¬ condition ∧ x = .ok y := by
  split at passed
  · cases passed
  · exact ⟨‹_›, passed⟩

theorem refuse_bind_ok {condition : Prop} [Decidable condition]
    (passed : (refuse condition err >>= f) = .ok y) : ¬ condition ∧ f () = .ok y := by
  obtain ⟨⟨⟩, first, rest⟩ := bind_ok passed
  exact ⟨refuse_ok first, rest⟩

theorem foldlM_ok {σ : Type} {f : σ → α → Except ε σ} {items : List α} {start stop : σ}
    (passed : items.foldlM f start = .ok stop) :
    ∀ item ∈ items, ∃ before after, f before item = .ok after := by
  induction items generalizing start with
  | nil => exact fun item absent => absurd absent not_mem_nil
  | cons head tail ih =>
    obtain ⟨middle, first, rest⟩ := bind_ok passed
    rintro item (_ | ⟨_, member⟩)
    · exact ⟨start, middle, first⟩
    · exact ih rest item member

theorem mapError_ok {x : Except ε α} {f : ε → δ} (passed : x.mapError f = .ok y) : x = .ok y := by
  cases x with
  | error err => cases passed
  | ok a => exact congrArg Except.ok (Except.ok.inj passed)

theorem map_ok {x : Except ε α} (passed : x.map f = .ok y) : ∃ a, x = .ok a ∧ y = f a := by
  cases x with
  | error err => cases passed
  | ok a => exact ⟨a, rfl, (Except.ok.inj passed).symm⟩

theorem joined_cons_ok {text : Bytes} (written : joined (piece :: rest) = .ok text) :
    ∃ head tail, piece = .ok head ∧ joined rest = .ok tail ∧ text = head ++ tail := by
  obtain ⟨head, first, more⟩ := bind_ok written
  obtain ⟨tail, last, whole⟩ := bind_ok more
  exact ⟨head, tail, first, last, (Except.ok.inj whole).symm⟩

theorem joined_joined (first rest : List (Except ε Bytes)) :
    joined (joined first :: rest) = joined (first ++ rest) := by
  induction first with
  | nil =>
    cases last : joined rest with
    | error err => rw [nil_append, joined, joined, last]; rfl
    | ok text => rw [nil_append, joined, joined, last]; rfl
  | cons piece first ih =>
    rw [cons_append, joined, joined, joined, ← ih, joined]
    cases piece with
    | error err => rfl
    | ok head =>
      cases joined first with
      | error err => rfl
      | ok middle =>
        cases joined rest with
        | error err => rfl
        | ok last => exact congrArg Except.ok (append_assoc head middle last)

namespace Writes
variable {w : Except ε Bytes} {rest : List (Except ε Bytes)}

variable {r : Reader δ α}

theorem plain (reads : Reads r text value) : Writes (.ok text : Except ε Bytes) r value := by
  intro written same
  rwa [← Except.ok.inj same]

theorem nil (value : α) : Writes (joined [] : Except ε Bytes) (pure value : Reader δ α) value :=
  plain (.pure value)

theorem cons (head : Writes w r x) (tail : Writes (joined rest) (f x) y) :
    Writes (joined (w :: rest)) (r >>= f) y := by
  intro text written
  obtain ⟨first, last, wrote, rested, rfl⟩ := joined_cons_ok written
  exact (head first wrote).bind (tail last rested)

theorem result (head : Writes w r x) (f : α → β) : Writes w (r >>= fun x => pure (f x)) (f x) :=
  fun text written => (head text written).result

theorem last (head : Writes w r x) (tail : Reads (f x) [] y) : Writes w (r >>= f) y :=
  fun text written => (head text written).last tail

/-- What a writer has checked may be used for the pieces after it. -/
theorem checked [Decidable condition] (tail : condition → Writes (joined rest) r y) :
    Writes (joined (Go.checked condition err :: rest)) r y := by
  intro text written
  obtain ⟨first, last, wrote, rested, rfl⟩ := joined_cons_ok written
  by_cases holds : condition
  · rw [Go.checked, if_pos holds] at wrote
    rw [← Except.ok.inj wrote]
    exact tail holds last rested
  · rw [Go.checked, if_neg holds] at wrote
    cases wrote

theorem validated (tail : check = .ok () → Writes (joined rest) r y) :
    Writes (joined (Go.validated check :: rest)) r y := by
  intro text written
  obtain ⟨first, last, wrote, rested, rfl⟩ := joined_cons_ok written
  cases passed : check with
  | error err =>
    rw [passed] at wrote
    cases wrote
  | ok =>
    rw [passed] at wrote
    rw [← Except.ok.inj wrote]
    exact tail passed last rested

theorem refuse [Decidable condition] (holds : ¬ condition) (tail : Writes w (f ()) y) :
    Writes w (Reader.refuse condition err >>= f) y :=
  fun text written => .refuse holds (tail text written)

/-- The pieces of a list, which may be read as an image of it. -/
theorem each {values : List γ} (one : ∀ value ∈ values, Writes (write value) r (image value)) :
    Writes (joined (values.map write)) (r.times values.length) (values.map image) := by
  induction values with
  | nil => exact nil []
  | cons head tail ih =>
    have others := ih fun value member => one value (mem_cons_of_mem head member)
    exact (one head mem_cons_self).cons (others.result (image head :: ·))

end Writes

/-- What the writer produces has the length. -/
def Sized (w : Except ε Bytes) (length : Nat) : Prop := ∀ text, w = .ok text → text.length = length

namespace Sized
variable {w : Except ε Bytes} {rest : List (Except ε Bytes)} {first others : Nat}

theorem plain (text : Bytes) : Sized (.ok text : Except ε Bytes) text.length := by
  intro written same
  rw [Except.ok.inj same]

theorem nil : Sized (joined [] : Except ε Bytes) 0 := plain []

theorem cons (head : Sized w first) (tail : Sized (joined rest) others) :
    Sized (joined (w :: rest)) (first + others) := by
  intro text written
  obtain ⟨start, last, wrote, rested, rfl⟩ := joined_cons_ok written
  rw [length_append, head start wrote, tail last rested]

theorem checked [Decidable condition] (tail : Sized (joined rest) others) :
    Sized (joined (Go.checked condition err :: rest)) others := by
  have nothing : Sized (Go.checked condition err) 0 := by
    intro text written
    rw [Go.checked] at written
    split at written
    · rw [← Except.ok.inj written, length_nil]
    · cases written
  simpa using nothing.cons tail

theorem each (one : ∀ value, Sized (write value) (size value)) (values : List α) :
    Sized (joined (values.map write)) (values.map size).sum := by
  induction values with
  | nil => exact nil
  | cons head tail ih => exact (one head).cons ih

end Sized

end Roost.Go
