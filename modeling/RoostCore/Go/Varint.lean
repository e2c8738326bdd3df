import RoostCore.Go.Reader

/-! Variable-length integers as `encoding/binary` writes them: seven bits a byte, lowest
first, the high bit set on every byte but the last. -/
namespace Roost.Go

/-- `binary.AppendUvarint`. -/
def uvarint (n : Nat) : Bytes :=
  if n < 128 then [UInt8.ofNat n] else UInt8.ofNat (n % 128 + 128) :: uvarint (n / 128)
termination_by n
decreasing_by omega

/-- The loop of `binary.Uvarint` from the byte with the given index on; absent when the
input ends inside the number or the number has more than 64 bits. -/
def uvarintFrom (index value : Nat) : Bytes → Option (Nat × Bytes)
  | [] => none
  | byte :: rest =>
      if index = 10 then none
      else if byte.toNat < 128 then
        if index = 9 ∧ 1 < byte.toNat then none
        else some (value + byte.toNat * 2 ^ (7 * index), rest)
      else uvarintFrom (index + 1) (value + byte.toNat % 128 * 2 ^ (7 * index)) rest

/-- `binary.Uvarint`. -/
def readUvarint (data : Bytes) : Option (Nat × Bytes) := uvarintFrom 0 0 data

theorem uvarintFrom_uvarint (n index value : Nat) (rest : Bytes) (few : index ≤ 9)
    (fits : n * 2 ^ (7 * index) < 2 ^ 64) :
    uvarintFrom index value (uvarint n ++ rest) = some (value + n * 2 ^ (7 * index), rest) := by
  induction n using Nat.strongRecOn generalizing index value with
  | ind n ih =>
    rw [uvarint]
    split
    · rename_i small
      have byte : (UInt8.ofNat n).toNat = n := by
        rw [UInt8.toNat_ofNat']
        omega
      have last : ¬ (index = 9 ∧ 1 < n) := by
        rintro ⟨rfl, two⟩
        omega
      have inside : index ≠ 10 := by omega
      simp [uvarintFrom, byte, small, last, inside]
    · have byte : (UInt8.ofNat (n % 128 + 128)).toNat = n % 128 + 128 := by
        rw [UInt8.toNat_ofNat']
        omega
      have shift : 2 ^ (7 * (index + 1)) = 128 * 2 ^ (7 * index) := by
        rw [Nat.mul_succ, Nat.pow_add, Nat.mul_comm]
      have split : n * 2 ^ (7 * index) =
          n % 128 * 2 ^ (7 * index) + n / 128 * (128 * 2 ^ (7 * index)) := by
        rw [← Nat.mul_assoc, ← Nat.add_mul]
        congr 1
        omega
      have next : index + 1 ≤ 9 := by
        by_contra past
        have : index = 9 := by omega
        subst this
        omega
      have bound : n / 128 * 2 ^ (7 * (index + 1)) < 2 ^ 64 := by
        rw [shift]
        omega
      rw [List.cons_append, uvarintFrom, if_neg (by omega), byte, if_neg (by omega),
        ih (n / 128) (by omega) (index + 1) _ next bound, shift, split]
      have low : (n % 128 + 128) % 128 = n % 128 := by omega
      rw [low, Nat.add_assoc]

theorem readUvarint_uvarint (n : Nat) (rest : Bytes) (fits : n < 2 ^ 64) :
    readUvarint (uvarint n ++ rest) = some (n, rest) := by
  rw [readUvarint, uvarintFrom_uvarint n 0 0 rest (by omega) (by simpa using fits)]
  simp

theorem uvarint_length_pos (n : Nat) : 0 < (uvarint n).length := by
  rw [uvarint]
  split <;> simp

theorem uvarint_length_le (n count : Nat) (fits : n < 128 ^ (count + 1)) :
    (uvarint n).length ≤ count + 1 := by
  induction count generalizing n with
  | zero =>
    rw [uvarint, if_pos (by simpa using fits)]
    simp
  | succ count ih =>
    rw [uvarint]
    split
    · simp
    have smaller : n / 128 < 128 ^ (count + 1) := by
      exact Nat.div_lt_of_lt_mul (by rwa [Nat.mul_comm])
    simpa using ih (n / 128) smaller

end Roost.Go
