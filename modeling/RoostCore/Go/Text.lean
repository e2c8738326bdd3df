import Mathlib.Data.List.DropRight
import Mathlib.Data.Nat.Digits.Defs

/-! Go's string functions over Lean strings: prefix and separator cuts, decimal
conversion with its range checks, and Unicode trimming. Strings are valid UTF-8,
as every string that enters through a JSON document is; `len` is the byte size. -/
namespace Roost.Go
open List

/-- `strings.CutPrefix`. -/
def cutPrefix (s start : String) : Option String :=
  if start.toList.isPrefixOf s.toList then
    some (String.ofList (s.toList.drop start.toList.length))
  else none

/-- `strings.HasPrefix`. -/
def hasPrefix (s start : String) : Bool := start.toList.isPrefixOf s.toList

/-- `strings.Cut` at the first occurrence of a one-character separator. -/
def cut (s : String) (sep : Char) : Option (String × String) :=
  if sep ∈ s.toList then
    some (String.ofList (s.toList.takeWhile (· != sep)),
      String.ofList ((s.toList.dropWhile (· != sep)).drop 1))
  else none

/-- `strings.Split` at a one-character separator. -/
def split (s : String) (sep : Char) : List String := (s.toList.splitOn sep).map String.ofList

/-- `strings.ContainsAny`. -/
def containsAny (s chars : String) : Bool := s.toList.any (fun c => chars.toList.contains c)

/-- The Unicode white space that `strings.TrimSpace` removes. -/
def isSpace (c : Char) : Bool :=
  (9 ≤ c.toNat && c.toNat ≤ 13) || c.toNat == 0x20 || c.toNat == 0x85 || c.toNat == 0xA0 ||
    c.toNat == 0x1680 || (0x2000 ≤ c.toNat && c.toNat ≤ 0x200A) || c.toNat == 0x2028 ||
    c.toNat == 0x2029 || c.toNat == 0x202F || c.toNat == 0x205F || c.toNat == 0x3000

/-- `strings.TrimSpace`. -/
def trimSpace (s : String) : String :=
  String.ofList ((s.toList.dropWhile isSpace).rdropWhile isSpace)

/-- A nonempty run of decimal digits. -/
def digits (text : List Char) : Option Nat :=
  if text ≠ [] ∧ text.all Char.isDigit then some (Nat.ofDigitChars 10 text 0) else none

/-- `strconv.ParseUint` in base ten. -/
def parseUint (s : String) (bits : Nat) : Option Nat :=
  (digits s.toList).bind (fun n => if n < 2 ^ bits then some n else none)

/-- `strconv.Atoi`: an optional sign and a 64-bit range. -/
def atoi (s : String) : Option Int :=
  match s.toList with
  | '-' :: text => (digits text).bind (fun n => if n ≤ 2 ^ 63 then some (-(n : Int)) else none)
  | '+' :: text => (digits text).bind (fun n => if n < 2 ^ 63 then some (n : Int) else none)
  | text => (digits text).bind (fun n => if n < 2 ^ 63 then some (n : Int) else none)

theorem cutPrefix_append (start rest : String) : cutPrefix (start ++ rest) start = some rest := by
  simp [cutPrefix]

theorem cutPrefix_eq_some (found : cutPrefix s start = some rest) : s = start ++ rest := by
  unfold cutPrefix at found
  split at found
  · rename_i starts
    obtain ⟨tail, same⟩ := isPrefixOf_iff_prefix.mp starts
    rw [← Option.some.inj found]
    apply String.toList_inj.mp
    simp [← same]
  · contradiction

theorem hasPrefix_iff : hasPrefix s start = true ↔ ∃ rest, s = start ++ rest := by
  simp only [hasPrefix, isPrefixOf_iff_prefix]
  constructor
  · rintro ⟨tail, same⟩
    refine ⟨String.ofList tail, String.toList_inj.mp ?_⟩
    simp [same]
  · rintro ⟨rest, rfl⟩
    simp

private theorem before_sep {text : List Char} (fresh : sep ∉ text) :
    ∀ c ∈ text, (c != sep) = true := by
  intro c member
  simp only [bne_iff_ne, ne_eq]
  rintro rfl
  exact fresh member

theorem cut_append {sep : Char} (fresh : sep ∉ first.toList) :
    cut (first ++ String.ofList (sep :: rest.toList)) sep = some (first, rest) := by
  have before := before_sep fresh
  simp [cut, takeWhile_append_of_pos before, dropWhile_append_of_pos before]

/-- The first separator splits a text in one way only. -/
theorem append_sep_inj {first second restFirst restSecond : List Char} (freshFirst : sep ∉ first)
    (freshSecond : sep ∉ second) (same : first ++ sep :: restFirst = second ++ sep :: restSecond) :
    first = second ∧ restFirst = restSecond := by
  have heads := congrArg (takeWhile (· != sep)) same
  simp only [takeWhile_append_of_pos (before_sep freshFirst),
    takeWhile_append_of_pos (before_sep freshSecond), takeWhile_cons, bne_self_eq_false,
    Bool.false_eq_true, if_false, append_nil] at heads
  subst heads
  exact ⟨rfl, by simpa using same⟩

theorem not_mem_decimal (other : c.isDigit = false) : c ∉ (Nat.repr n).toList := by
  intro member
  rw [Nat.toList_repr] at member
  have digit := Nat.isDigit_of_mem_toDigits (by decide) (by decide) member
  rw [other] at digit
  contradiction

theorem digits_repr (n : Nat) : digits (Nat.toDigits 10 n) = some n := by
  have all : (Nat.toDigits 10 n).all Char.isDigit = true := by
    rw [all_eq_true]
    exact fun c member => Nat.isDigit_of_mem_toDigits (by decide) (by decide) member
  simp [digits, all]

theorem parseUint_repr (fits : n < 2 ^ bits) : parseUint (Nat.repr n) bits = some n := by
  simp [parseUint, digits_repr, fits]

theorem atoi_repr (n : Nat) : atoi (Nat.repr n) = if n < 2 ^ 63 then some (n : Int) else none := by
  have first : ∀ c rest, Nat.toDigits 10 n = c :: rest → c.isDigit = true := by
    intro c rest same
    exact Nat.isDigit_of_mem_toDigits (by decide) (by decide) (same ▸ mem_cons_self)
  unfold atoi
  rw [Nat.toList_repr]
  split
  · rename_i rest same
    exact absurd (first _ _ same) (by decide)
  · rename_i rest same
    exact absurd (first _ _ same) (by decide)
  · rw [digits_repr, Option.bind_some]

theorem repr_injective (same : Nat.repr n = Nat.repr m) : n = m := by
  have parsed := digits_repr n
  rw [← Nat.toList_repr, same, Nat.toList_repr, digits_repr] at parsed
  exact (Option.some.inj parsed).symm

theorem ascii_size (ascii : ∀ c ∈ text, c.utf8Size = 1) :
    (String.ofList text).utf8ByteSize = text.length := by
  rw [← String.size_toByteArray, String.toByteArray_ofList]
  induction text with
  | nil => rfl
  | cons c rest ih =>
    have tail := ih (fun d member => ascii d (mem_cons_of_mem c member))
    rw [utf8Encode_cons, ByteArray.size_append, tail, utf8Encode_singleton,
      size_toByteArray, String.length_utf8EncodeChar, ascii c mem_cons_self,
      length_cons, Nat.add_comm]

theorem repr_size (pos : 0 < width) (small : n < 10 ^ width) :
    (Nat.repr n).utf8ByteSize ≤ width := by
  have ascii : ∀ c ∈ Nat.toDigits 10 n, c.utf8Size = 1 := by
    intro c member
    have digit := Nat.isDigit_of_mem_toDigits (by decide) (by decide) member
    simp only [Char.isDigit, Bool.and_eq_true, decide_eq_true_eq] at digit
    have small : c.val ≤ 0x7f := UInt32.le_trans digit.2 (by decide)
    simp [Char.utf8Size, small]
  have text : Nat.repr n = String.ofList (Nat.toDigits 10 n) := rfl
  rw [text, ascii_size ascii]
  exact Nat.toDigits_length 10 n width pos small

end Roost.Go
