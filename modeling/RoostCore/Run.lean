import Mathlib.Algebra.Order.Ring.Int

/-! Runs of a deterministic machine. A schedule is the list of inputs the machine is
given; an input that is not enabled leaves the state as it is. -/
namespace Roost

variable {σ ι : Type*} {step : σ → ι → σ} {s : σ}

def run (step : σ → ι → σ) (s : σ) (inputs : List ι) : σ := inputs.foldl step s

@[simp] theorem run_nil : run step s [] = s := rfl

@[simp] theorem run_cons : run step s (i :: rest) = run step (step s i) rest := rfl

theorem run_append (first rest : List ι) :
    run step s (first ++ rest) = run step (run step s first) rest :=
  List.foldl_append

theorem mem_snoc : i ∈ record ++ [new] ↔ i ∈ record ∨ i = new := by simp

/-- Every step of the run meets the condition, which may read the state it starts from. -/
def Along (step : σ → ι → σ) (ok : σ → ι → Prop) : σ → List ι → Prop
  | _, [] => True
  | s, i :: rest => ok s i ∧ Along step ok (step s i) rest

theorem along_append : Along step ok s (first ++ rest) ↔
      Along step ok s first ∧ Along step ok (run step s first) rest := by
  induction first generalizing s with
  | nil => simp [Along]
  | cons i tail ih => simp [Along, ih, and_assoc]

theorem along_of_forall {Q : ι → Prop} (each : ∀ i ∈ inputs, Q i) :
    Along step (fun _ i => Q i) s inputs := by
  induction inputs generalizing s with
  | nil => trivial
  | cons i rest ih =>
    exact ⟨each i List.mem_cons_self, ih fun j member => each j (List.mem_cons_of_mem i member)⟩

theorem along_mem {Q : ι → Prop} (each : ∀ i ∈ inputs, Q i) (along : Along step ok s inputs) :
    Along step (fun s i => Q i ∧ ok s i) s inputs := by
  induction inputs generalizing s with
  | nil => trivial
  | cons i rest ih =>
    obtain ⟨now, later⟩ := along
    exact ⟨⟨each i List.mem_cons_self, now⟩, ih (fun j member => each j (List.mem_cons_of_mem i member)) later⟩

variable {P : σ → Prop}

/-- An input that is not enabled keeps everything. -/
theorem keeps_if {guard : Prop} [Decidable guard] (kept : P s)
    (moved : guard → P next) : P (if guard then next else s) := by
  split
  · exact moved ‹_›
  · exact kept

theorem keeps_unless {guard : Prop} [Decidable guard] (kept : P s)
    (moved : ¬guard → P next) : P (if guard then s else next) := by
  split
  · exact kept
  · exact moved ‹_›

/-- What every enabled step preserves holds at the end of every run of such steps. -/
theorem invariant_along (kept : ∀ s i, ok s i → P s → P (step s i)) (start : P s)
    (along : Along step ok s inputs) : P (run step s inputs) := by
  induction inputs generalizing s with
  | nil => exact start
  | cons i rest ih =>
    obtain ⟨now, later⟩ := along
    exact ih (kept s i now start) later

theorem invariant (kept : ∀ s i, P s → P (step s i)) (start : P s)
    (inputs : List ι) : P (run step s inputs) := by
  induction inputs generalizing s with
  | nil => exact start
  | cons i rest ih => exact ih (kept s i start)

instance alongDecidable (step : σ → ι → σ) (ok : σ → ι → Prop) [∀ s i, Decidable (ok s i)] :
    (s : σ) → (inputs : List ι) → Decidable (Along step ok s inputs)
  | _, [] => inferInstanceAs (Decidable True)
  | s, i :: rest =>
      have := alongDecidable step ok (step s i) rest
      inferInstanceAs (Decidable (ok s i ∧ Along step ok (step s i) rest))

end Roost
