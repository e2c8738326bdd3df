import RoostCore.Go.Reader

/-! Numbers of a fixed width, as `encoding/binary` writes and reads them. -/
namespace Roost.Go

/-- The lowest byte first. -/
def littleEndian : Nat → Nat → Bytes
  | 0, _ => []
  | width + 1, n => UInt8.ofNat n :: littleEndian width (n / 256)

def fromLittleEndian : Bytes → Nat
  | [] => 0
  | byte :: rest => byte.toNat + 256 * fromLittleEndian rest

def bigEndian (width n : Nat) : Bytes := (littleEndian width n).reverse

def fromBigEndian (bytes : Bytes) : Nat := fromLittleEndian bytes.reverse

@[simp] theorem length_littleEndian (width n : Nat) : (littleEndian width n).length = width := by
  induction width generalizing n with
  | zero => rfl
  | succ width ih => rw [littleEndian, List.length_cons, ih]

@[simp] theorem length_bigEndian (width n : Nat) : (bigEndian width n).length = width := by
  rw [bigEndian, List.length_reverse, length_littleEndian]

theorem fromLittleEndian_littleEndian (fits : n < 256 ^ width) :
    fromLittleEndian (littleEndian width n) = n := by
  induction width generalizing n with
  | zero =>
    have zero : n = 0 := by simpa using fits
    rw [zero]
    rfl
  | succ width ih =>
    have rest : n / 256 < 256 ^ width := by
      exact Nat.div_lt_of_lt_mul (by omega)
    rw [littleEndian, fromLittleEndian, ih rest, UInt8.toNat_ofNat']
    omega

theorem fromBigEndian_bigEndian (fits : n < 256 ^ width) :
    fromBigEndian (bigEndian width n) = n := by
  rw [fromBigEndian, bigEndian, List.reverse_reverse, fromLittleEndian_littleEndian fits]

namespace Reader
variable {ε : Type}

def little (width : Nat) (short : ε) : Reader ε Nat := do
  let bytes ← Reader.take width short
  return fromLittleEndian bytes

def big (width : Nat) (short : ε) : Reader ε Nat := do
  let bytes ← Reader.take width short
  return fromBigEndian bytes

end Reader

namespace Reads
variable {ε : Type} {short : ε} {width n : Nat}

theorem little (fits : n < 256 ^ width) :
    Reads (Reader.little width short) (littleEndian width n) n := by
  have read : Reads (Reader.take width short) (littleEndian width n) (littleEndian width n) :=
    .take (length_littleEndian width n)
  have whole := read.result (f := fromLittleEndian)
  rwa [fromLittleEndian_littleEndian fits] at whole

theorem big (fits : n < 256 ^ width) : Reads (Reader.big width short) (bigEndian width n) n := by
  have read : Reads (Reader.take width short) (bigEndian width n) (bigEndian width n) :=
    .take (length_bigEndian width n)
  have whole := read.result (f := fromBigEndian)
  rwa [fromBigEndian_bigEndian fits] at whole

theorem uint64_fits (value : UInt64) : value.toNat < 256 ^ 8 := value.toNat_lt

theorem uint32_fits (value : UInt32) : value.toNat < 256 ^ 4 := value.toNat_lt

theorem uint16_fits (value : UInt16) : value.toNat < 256 ^ 2 := value.toNat_lt

end Reads

end Roost.Go
