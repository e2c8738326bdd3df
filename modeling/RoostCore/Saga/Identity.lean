import RoostCore.Saga.Record

/-! Operation keys and command IDs (`transition.go`, identities). Both texts are
injective within one saga, and the two parsers invert them: the coordinator and
its participants read the same incarnation out of the same ID. -/
namespace Roost.Saga
open Go List Option

/-- "<saga ID>:<lifecycle>:<phase>:<step>". -/
def operationKey (id lifecycle : String) (phase : Phase) (step : Int) : String :=
  id ++ ":" ++ lifecycle ++ ":" ++ toString phase.code ++ ":" ++ toString step

def currentOperation (record : Record) : String :=
  operationKey record.id record.lifecycle record.phase record.step

/-- The conversion of an `int` to `Phase` keeps its low eight bits. -/
def phaseOfInt (n : Int) : Option Phase :=
  if n % 256 = 1 then some .forward else if n % 256 = 2 then some .compensate else none

def parseOperationKey (record : Record) (operation : String) : Option (Phase × Int) := do
  let rest ← cutPrefix operation (record.id ++ ":" ++ record.lifecycle ++ ":")
  let (phaseText, stepText) ← cut rest ':'
  let phase ← (atoi phaseText).bind phaseOfInt
  let step ← atoi stepText
  if step < 0 then none else some (phase, step)

/-- Incarnation zero is written without its number. -/
def commandID (operationKey : String) (incarnation attempt : UInt32) : String :=
  if incarnation = 0 then operationKey ++ ":" ++ toString attempt.toNat
  else operationKey ++ ":r" ++ toString incarnation.toNat ++ ":" ++ toString attempt.toNat

/-- An ID of any other shape belongs to incarnation zero. -/
def commandIDIncarnation (operationKey commandID : String) : UInt32 :=
  match cutPrefix commandID (operationKey ++ ":r") with
  | none => 0
  | some rest =>
      match cut rest ':' with
      | none => 0
      | some (digits, _) => ((parseUint digits 32).map UInt32.ofNat).getD 0

theorem Phase.code_injective {p q : Phase} (same : p.code = q.code) : p = q := by
  cases p <;> cases q <;> simp_all [Phase.code]

theorem Phase.code_decimal (p : Phase) : ':' ∉ (Nat.repr p.code).toList :=
  not_mem_decimal (by decide)

theorem operationKey_append (id lifecycle : String) (phase : Phase) (step : Int) :
    operationKey id lifecycle phase step = (id ++ ":" ++ lifecycle ++ ":") ++
      (Nat.repr phase.code ++ String.ofList (':' :: (toString step).toList)) := by
  apply String.toList_inj.mp
  simp [operationKey]

theorem operationKey_injective {id lifecycle : String} {i j : Nat}
    (same : operationKey id lifecycle p i = operationKey id lifecycle q j) : p = q ∧ i = j := by
  rw [operationKey_append, operationKey_append] at same
  have texts := congrArg String.toList same
  simp only [String.toList_append, append_cancel_left_eq, String.toList_ofList] at texts
  obtain ⟨phases, steps⟩ := append_sep_inj p.code_decimal q.code_decimal texts
  exact ⟨Phase.code_injective (repr_injective (String.toList_inj.mp phases)),
    repr_injective (String.toList_inj.mp steps)⟩

theorem phaseOfInt_code (p : Phase) : phaseOfInt p.code = some p := by
  cases p <;> rfl

theorem parseOperationKey_operationKey (record : Record) (phase : Phase) (step : Nat) :
    parseOperationKey record (operationKey record.id record.lifecycle phase step) =
      if step < 2 ^ 63 then some (phase, (step : Int)) else none := by
  have small : phase.code < 2 ^ 63 := by cases phase <;> decide
  have number : atoi (toString (step : Int)) = if step < 2 ^ 63 then some (step : Int) else none :=
    atoi_repr step
  simp only [parseOperationKey, operationKey_append, cutPrefix_append, bind, bind_some,
    cut_append phase.code_decimal, atoi_repr, small, if_true, phaseOfInt_code, number]
  split
  · rw [bind_some, if_neg (by omega)]
  · rfl

theorem commandID_append (operation : String) (incarnation attempt : UInt32) :
    (commandID operation incarnation attempt).toList = operation.toList ++ ':' ::
      ((if incarnation = 0 then [] else 'r' :: (Nat.repr incarnation.toNat).toList ++ [':']) ++
        (Nat.repr attempt.toNat).toList) := by
  unfold commandID
  split <;> simp

/-- Both parsers read an ID the same way: its incarnation is the one it was minted with. -/
theorem commandIDIncarnation_commandID (operation : String) (incarnation attempt : UInt32) :
    commandIDIncarnation operation (commandID operation incarnation attempt) = incarnation := by
  by_cases first : incarnation = 0
  · subst incarnation
    -- the attempt starts with a digit, so the prefix "<operation>:r" cannot be cut
    have absent : cutPrefix (commandID operation 0 attempt) (operation ++ ":r") = none := by
      rw [eq_none_iff_forall_not_mem]
      intro rest found
      have texts := congrArg String.toList (cutPrefix_eq_some found)
      simp only [commandID_append, if_true, nil_append, String.toList_append,
        append_assoc, append_cancel_left_eq] at texts
      have head : 'r' ∈ (Nat.repr attempt.toNat).toList := by
        have tails := cons.inj texts
        rw [tails.2]
        exact mem_append_left _ (by decide)
      exact not_mem_decimal (by decide) head
    simp [commandIDIncarnation, absent]
  · have text : commandID operation incarnation attempt = (operation ++ ":r") ++
        (Nat.repr incarnation.toNat ++ String.ofList (':' :: (Nat.repr attempt.toNat).toList)) := by
      apply String.toList_inj.mp
      simp [commandID, first]
    have separated : ':' ∉ (Nat.repr incarnation.toNat).toList := not_mem_decimal (by decide)
    simp only [commandIDIncarnation, text, cutPrefix_append, cut_append separated,
      parseUint_repr incarnation.toNat_lt, map_some, getD_some, UInt32.ofNat_toNat]

/-- Within one saga an ID determines the operation, the incarnation and the attempt. -/
theorem commandID_injective {id lifecycle : String} {i j : Nat}
    (same : commandID (operationKey id lifecycle p i) incarnation attempt =
      commandID (operationKey id lifecycle q j) other again) :
    (p = q ∧ i = j) ∧ incarnation = other ∧ attempt = again := by
  have decimal (n : Nat) : ':' ∉ (Nat.repr n).toList := not_mem_decimal (by decide)
  have texts := congrArg String.toList same
  simp only [commandID_append, operationKey_append, String.toList_append, String.toList_ofList,
    append_assoc, append_cancel_left_eq, cons_append] at texts
  obtain ⟨phases, rest⟩ := append_sep_inj p.code_decimal q.code_decimal texts
  obtain ⟨steps, -⟩ := append_sep_inj (decimal i) (decimal j) rest
  have operation : p = q ∧ i = j :=
    ⟨Phase.code_injective (repr_injective (String.toList_inj.mp phases)),
      repr_injective (String.toList_inj.mp steps)⟩
  obtain ⟨rfl, rfl⟩ := operation
  have minted : incarnation = other := by
    rw [← commandIDIncarnation_commandID (operationKey id lifecycle p i) incarnation attempt, same,
      commandIDIncarnation_commandID]
  subst minted
  have attempts := congrArg String.toList same
  simp only [commandID_append, append_cancel_left_eq, cons.injEq, true_and] at attempts
  exact ⟨⟨rfl, rfl⟩, rfl,
    UInt32.toNat_inj.mp (repr_injective (String.toList_inj.mp attempts))⟩

end Roost.Saga
