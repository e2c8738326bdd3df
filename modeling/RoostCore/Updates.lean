import Mathlib.Data.List.Basic

/-! Functions given to an atomic update of one record, and histories in which every event is
allowed by those before it. The function sees the record or its absence and fails, leaves the
record as it is or writes another; what it computed for its caller comes with the decision. -/
namespace Roost.Updates

inductive Decision (σ ε α : Type*) where
  | fail (error : ε)
  | keep (result : α)
  | write (next : σ) (result : α)

namespace Decision

variable {σ ε α β : Type*}

/-- The record after the decision took effect. -/
def store (old : Option σ) : Decision σ ε α → Option σ
  | .fail _ | .keep _ => old
  | .write next _ => some next

def result : Decision σ ε α → Except ε α
  | .fail error => .error error
  | .keep result | .write _ result => .ok result

end Decision

/-- A history with its latest event first, every event of which the law allows after the
older ones. -/
def Lawful {ε : Type*} (law : List ε → ε → Prop) : List ε → Prop
  | [] => True
  | event :: older => law older event ∧ Lawful law older

theorem Lawful.at (lawful : Lawful law history) (split : history = later ++ event :: older) :
    law older event := by
  induction later generalizing history with
  | nil =>
    subst split
    exact lawful.1
  | cons first later ih =>
    subst split
    exact ih lawful.2 rfl

end Roost.Updates
