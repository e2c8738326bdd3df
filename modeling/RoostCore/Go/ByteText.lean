import RoostCore.Go.Endian
import RoostCore.Go.Text

/-! Texts kept as bytes: decimal numbers and base64url, as `strconv` and `encoding/base64`
write them into byte strings. -/
namespace Roost.Go
open List

def charByte (c : Char) : UInt8 := UInt8.ofNat c.toNat

def byteChar (b : UInt8) : Char := Char.ofNat b.toNat

/-- `strconv.FormatUint` in base ten. -/
def formatUint (n : Nat) : Bytes := (Nat.toDigits 10 n).map charByte

/-- `strconv.ParseUint` of a byte string in base ten. -/
def parseUintBytes (text : Bytes) (bits : Nat) : Option Nat :=
  (digits (text.map byteChar)).bind (fun n => if n < 2 ^ bits then some n else none)

theorem isDigit_range {c : Char} (digit : c.isDigit = true) : 48 ≤ c.toNat ∧ c.toNat ≤ 57 := by
  simp only [Char.isDigit, Bool.and_eq_true, decide_eq_true_eq, UInt32.le_iff_toNat_le] at digit
  exact digit

theorem byteChar_charByte (ascii : c.toNat < 128) : byteChar (charByte c) = c := by
  have same : (UInt8.ofNat c.toNat).toNat = c.toNat := by
    rw [UInt8.toNat_ofNat']
    omega
  rw [byteChar, charByte, same, Char.ofNat_toNat]

theorem charByte_toNat (ascii : c.toNat < 128) : (charByte c).toNat = c.toNat := by
  rw [charByte, UInt8.toNat_ofNat']
  omega

theorem mem_formatUint (member : b ∈ formatUint n) : 48 ≤ b.toNat ∧ b.toNat ≤ 57 := by
  obtain ⟨c, digit, rfl⟩ := mem_map.mp member
  have range := isDigit_range (Nat.isDigit_of_mem_toDigits (by decide) (by decide) digit)
  rw [charByte_toNat (by omega)]
  exact range

theorem parseUintBytes_formatUint (fits : n < 2 ^ bits) :
    parseUintBytes (formatUint n) bits = some n := by
  have same : (formatUint n).map byteChar = Nat.toDigits 10 n := by
    rw [formatUint, map_map]
    conv_rhs => rw [← map_id (Nat.toDigits 10 n)]
    apply map_congr_left
    intro c digit
    have range := isDigit_range (Nat.isDigit_of_mem_toDigits (by decide) (by decide) digit)
    exact byteChar_charByte (by omega)
  rw [parseUintBytes, same, digits_repr, Option.bind_some, if_pos fits]

/-- The characters of base64url: letters, digits, `-` and `_`. -/
def urlAlphabet (i : Nat) : UInt8 :=
  if i < 26 then UInt8.ofNat (65 + i)
  else if i < 52 then UInt8.ofNat (97 + (i - 26))
  else if i < 62 then UInt8.ofNat (48 + (i - 52))
  else if i = 62 then 45
  else 95

/-- `base64.RawURLEncoding.EncodeToString`. -/
def rawURLEncoding : Bytes → Bytes
  | a :: b :: c :: rest =>
    let v := a.toNat * 65536 + b.toNat * 256 + c.toNat
    urlAlphabet (v / 262144) :: urlAlphabet (v / 4096 % 64) :: urlAlphabet (v / 64 % 64) :: urlAlphabet (v % 64) ::
      rawURLEncoding rest
  | [a, b] =>
    let v := a.toNat * 65536 + b.toNat * 256
    [urlAlphabet (v / 262144), urlAlphabet (v / 4096 % 64), urlAlphabet (v / 64 % 64)]
  | [a] =>
    let v := a.toNat * 65536
    [urlAlphabet (v / 262144), urlAlphabet (v / 4096 % 64)]
  | [] => []

theorem urlAlphabet_range (i : Nat) : 45 ≤ (urlAlphabet i).toNat ∧ (urlAlphabet i).toNat ≤ 122 := by
  simp only [urlAlphabet]
  split
  · rw [UInt8.toNat_ofNat']
    omega
  split
  · rw [UInt8.toNat_ofNat']
    omega
  · split
    · rw [UInt8.toNat_ofNat']
      omega
    · split <;> decide

theorem mem_rawURLEncoding (member : b ∈ rawURLEncoding bytes) : 45 ≤ b.toNat ∧ b.toNat ≤ 122 := by
  have character : ∃ i, b = urlAlphabet i := by
    induction bytes using rawURLEncoding.induct with
    | case1 x y z rest ih =>
      simp only [rawURLEncoding, mem_cons] at member
      rcases member with same | same | same | same | later
      all_goals first | exact ⟨_, same⟩ | exact ih later
    | case2 x y =>
      simp only [rawURLEncoding, mem_cons, not_mem_nil, or_false] at member
      rcases member with same | same | same <;> exact ⟨_, same⟩
    | case3 x =>
      simp only [rawURLEncoding, mem_cons, not_mem_nil, or_false] at member
      rcases member with same | same <;> exact ⟨_, same⟩
    | case4 => contradiction
  obtain ⟨i, rfl⟩ := character
  exact urlAlphabet_range i

end Roost.Go
