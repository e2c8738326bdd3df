import RoostCore.Lockstep.Wire

/-! Snapshots travel in chunks (`snapshot_wire.go`). The first chunk carries the header
with the total length and the digest; a receiver puts the chunks together again. -/
namespace Roost.Lockstep
open Go List

def snapshotMagic : UInt8 := 0xCA

def snapshotVersion : UInt8 := 1

def snapshotFlagStateHash : UInt8 := 0x01

def snapshotDigestBytes : Nat := 32

def defaultMaxSnapshotBytes : Nat := 4 * 2 ^ 20

def maxSnapshotBytes : Nat := 64 * 2 ^ 20

abbrev SnapshotDigest := { bytes : Bytes // bytes.length = snapshotDigestBytes }

def SnapshotDigest.zero : SnapshotDigest :=
  ⟨replicate snapshotDigestBytes 0, length_replicate⟩

/-- The fields from `frame` to `digest` are the header of a first chunk. -/
structure SnapshotChunk where
  transfer : UInt64
  offset : Int
  first : Bool := false
  frame : Nat := 0
  total : Int := 0
  stateHash : UInt64 := 0
  hasStateHash : Bool := false
  digest : SnapshotDigest := SnapshotDigest.zero
  data : Bytes := []
  deriving DecidableEq

structure ReceivedSnapshot where
  frame : Nat
  data : Bytes
  stateHash : UInt64
  hasStateHash : Bool
  deriving DecidableEq

inductive ChunkError where
  | transferZero
  | data (offset : Int) (bytes : Nat)
  | total (total : Int)
  deriving DecidableEq, Repr

def isSnapshotChunk (packet : Bytes) : Bool := packet.head? == some snapshotMagic

/-- The flags, with the state hash if there is one. -/
def appendStateHash (chunk : SnapshotChunk) : Bytes :=
  if chunk.hasStateHash then [snapshotFlagStateHash] ++ uvarint chunk.stateHash.toNat else [0]

def appendChunkHeader (chunk : SnapshotChunk) : Bytes :=
  uvarint chunk.frame ++ (uvarint chunk.total.toNat ++ (appendStateHash chunk ++ chunk.digest.1))

def appendSnapshotChunk (chunk : SnapshotChunk) : Bytes :=
  snapshotMagic :: snapshotVersion ::
    ((uvarint chunk.transfer.toNat ++ (uvarint chunk.offset.toNat ++
      (if chunk.offset = 0 then appendChunkHeader chunk else []))) ++ chunk.data)

def encodeSnapshotChunk (chunk : SnapshotChunk) : Except ChunkError Bytes :=
  if chunk.transfer = 0 then .error .transferZero
  else if chunk.offset < 0 ∨ chunk.data.length = 0 then
    .error (.data chunk.offset chunk.data.length)
  else if chunk.offset = 0 ∧ (chunk.total < chunk.data.length ∨ maxSnapshotBytes < chunk.total) then
    .error (.total chunk.total)
  else .ok (appendSnapshotChunk chunk)

/-- The limit a receiver applies. -/
def snapshotLimit (limit : Int) : Nat :=
  if limit ≤ 0 then defaultMaxSnapshotBytes else min limit.toNat maxSnapshotBytes

def readStateHash (short : Corrupt) : Reader Corrupt (Option Nat) := do
  let flags ← Reader.byte short
  Reader.refuse (flags ≠ 0 ∧ flags ≠ snapshotFlagStateHash) (.chunkFlags flags)
  if flags = snapshotFlagStateHash then
    let hash ← varint
    return some hash
  else return none

def readChunkHeader (limit transfer : Nat) : Reader Corrupt SnapshotChunk := do
  let frame ← varint
  let total ← varint
  let left ← Reader.remaining
  Reader.refuse (2 ^ 32 - 1 < frame ∨ total = 0 ∨ limit < total ∨ left < 1)
    (.chunkFrame frame total limit)
  let hash ← readStateHash (.chunkFrame frame total limit)
  let digest ← Reader.exactly snapshotDigestBytes .chunkDigest
  return { transfer := UInt64.ofNat transfer, offset := 0, first := true, frame,
           total, stateHash := UInt64.ofNat (hash.getD 0),
           hasStateHash := hash.isSome, digest }

/-- Everything before the data. -/
def readChunk (limit : Nat) : Reader Corrupt SnapshotChunk := do
  let transfer ← varint
  let offset ← varint
  Reader.refuse (transfer = 0 ∨ limit ≤ offset) (.chunkOffset transfer offset)
  if offset = 0 then readChunkHeader limit transfer
  else return { transfer := UInt64.ofNat transfer, offset }

def decodeSnapshotChunk (packet : Bytes) (maxTotal : Int) : Except Corrupt SnapshotChunk :=
  match packet with
  | magic :: version :: rest =>
      if rest.length < 3 ∨ magic ≠ snapshotMagic ∨ version ≠ snapshotVersion then
        .error .chunkHeader
      else
        match readChunk (snapshotLimit maxTotal) rest with
        | .error err => .error err
        | .ok (chunk, data) =>
            if chunk.first ∧ chunk.total < data.length then
              .error (.chunkFirst data.length chunk.total.toNat)
            else if data.length = 0 then .error .chunkEmpty
            else .ok { chunk with data }
  | _ => .error .chunkHeader

/-- A chunk has only the fields its kind carries, within the limit of the receiver. -/
structure SnapshotChunk.Fits (chunk : SnapshotChunk) (limit : Nat) : Prop where
  transfer : chunk.transfer ≠ 0
  offset : 0 ≤ chunk.offset ∧ chunk.offset < limit
  data : chunk.data ≠ []
  first : chunk.first = decide (chunk.offset = 0)
  frame : chunk.frame < 2 ^ 32
  total : chunk.offset = 0 → (chunk.data.length : Int) ≤ chunk.total ∧ chunk.total ≤ limit
  hash : chunk.hasStateHash = false → chunk.stateHash = 0
  later : chunk.offset ≠ 0 → chunk.frame = 0 ∧ chunk.total = 0 ∧ chunk.hasStateHash = false ∧
    chunk.digest = SnapshotDigest.zero

theorem snapshotLimit_le (limit : Int) : snapshotLimit limit ≤ maxSnapshotBytes := by
  rw [snapshotLimit]
  split
  · decide
  · exact Nat.min_le_right _ _

theorem reads_stateHash (chunk : SnapshotChunk) (short : Corrupt) :
    Reads (readStateHash short) (appendStateHash chunk)
      (if chunk.hasStateHash then some chunk.stateHash.toNat else none) := by
  rw [appendStateHash]
  cases chunk.hasStateHash with
  | false => exact (Reads.byte 0).bind (b := []) (.refuse (by decide) (.pure none))
  | true =>
    have hash := chunk.stateHash.toNat_lt
    exact (Reads.byte snapshotFlagStateHash).bind
      (.refuse (by decide) (reads_varint (by omega)).result)

theorem reads_chunkHeader (small : limit ≤ maxSnapshotBytes) (fits : chunk.Fits limit)
    (start : chunk.offset = 0) :
    Reads (readChunkHeader limit chunk.transfer.toNat) (appendChunkHeader chunk)
      { chunk with data := [] } := by
  have most : maxSnapshotBytes = 64 * 2 ^ 20 := rfl
  have size : snapshotDigestBytes = 32 := rfl
  have frame := fits.frame
  have digest := chunk.digest.2
  obtain ⟨long, total⟩ := fits.total start
  have filled := length_pos_iff.mpr fits.data
  have same : ({ chunk with data := [] } : SnapshotChunk) =
      { transfer := UInt64.ofNat chunk.transfer.toNat, offset := 0, first := true,
        frame := chunk.frame, total := chunk.total.toNat,
        stateHash := UInt64.ofNat
          ((if chunk.hasStateHash then some chunk.stateHash.toNat else none).getD 0),
        hasStateHash := (if chunk.hasStateHash then some chunk.stateHash.toNat else none).isSome,
        digest := chunk.digest } := by
    have first : chunk.first = true := by rw [fits.first, start]; rfl
    have known : (chunk.total.toNat : Int) = chunk.total := Int.toNat_of_nonneg (by omega)
    have hash := fits.hash
    rw [known, UInt64.ofNat_toNat, start, first]
    cases held : chunk.hasStateHash with
    | false => simp [hash held]
    | true => simp
  rw [same]
  refine (reads_varint (by omega)).bind ((reads_varint (by omega)).bind ?_)
  refine .remaining fun left enough => .refuse ?_ ?_
  · rw [length_append] at enough
    omega
  · exact (reads_stateHash chunk _).bind (Reads.exactly chunk.digest).result

theorem reads_chunk (small : limit ≤ maxSnapshotBytes) (fits : chunk.Fits limit) :
    Reads (readChunk limit) (uvarint chunk.transfer.toNat ++ (uvarint chunk.offset.toNat ++
      (if chunk.offset = 0 then appendChunkHeader chunk else []))) { chunk with data := [] } := by
  have most : maxSnapshotBytes = 64 * 2 ^ 20 := rfl
  have transfer := chunk.transfer.toNat_lt
  have assigned : chunk.transfer.toNat ≠ 0 := fun zero =>
    fits.transfer (UInt64.toNat_inj.mp zero)
  obtain ⟨nonnegative, inside⟩ := fits.offset
  refine (reads_varint (by omega)).bind ((reads_varint (by omega)).bind (.refuse (by omega) ?_))
  by_cases start : chunk.offset = 0
  · rw [if_pos start, if_pos (by omega)]
    exact reads_chunkHeader small fits start
  obtain ⟨frame, total, bare, digest⟩ := fits.later start
  have hash := fits.hash bare
  have first : chunk.first = false := by simpa [start] using fits.first
  rw [if_neg start, if_neg (by omega)]
  have same : ({ chunk with data := [] } : SnapshotChunk) =
      { transfer := UInt64.ofNat chunk.transfer.toNat, offset := chunk.offset.toNat } := by
    have known : (chunk.offset.toNat : Int) = chunk.offset := Int.toNat_of_nonneg nonnegative
    rw [known, UInt64.ofNat_toNat, frame, total, bare, digest, hash, first]
  rw [same]
  exact .pure _

/-- A chunk within the limit of the receiver is decoded as it was encoded. -/
theorem decode_appendSnapshotChunk (fits : chunk.Fits (snapshotLimit limit)) :
    decodeSnapshotChunk (appendSnapshotChunk chunk) limit = .ok chunk := by
  have read := reads_chunk (snapshotLimit_le limit) fits chunk.data
  have filled := length_pos_iff.mpr fits.data
  have size : ¬ ((uvarint chunk.transfer.toNat ++ (uvarint chunk.offset.toNat ++
      (if chunk.offset = 0 then appendChunkHeader chunk else []))) ++ chunk.data).length < 3 := by
    have one := uvarint_length_pos chunk.transfer.toNat
    have two := uvarint_length_pos chunk.offset.toNat
    simp only [length_append]
    omega
  rw [appendSnapshotChunk, decodeSnapshotChunk, if_neg (by simpa using size), read]
  dsimp only
  rw [if_neg, if_neg (by omega)]
  rintro ⟨first, short⟩
  have start : chunk.offset = 0 := by simpa [fits.first] using first
  have := (fits.total start).1
  omega

structure SnapshotReceiver where
  maxBytes : Nat
  transfer : UInt64 := 0
  active : Bool := false
  header : SnapshotChunk := { transfer := 0, offset := 0 }
  data : Bytes := []

def newSnapshotReceiver (maxBytes : Int) : SnapshotReceiver := { maxBytes := snapshotLimit maxBytes }

inductive SnapshotError where
  | corrupt (fault : Corrupt)
  | startsAt (transfer : UInt64) (offset : Int)
  | skips (offset : Int) (received : Nat)
  | overruns (total : Int)
  | digest (frame bytes : Nat)
  deriving DecidableEq, Repr

namespace SnapshotReceiver

/-- Forgets the transfer; its number counts as new again. -/
def reset (r : SnapshotReceiver) : SnapshotReceiver := { maxBytes := r.maxBytes }

/-- Adds the data of a chunk that continues the transfer. -/
def take (sha256 : Bytes → SnapshotDigest) (r : SnapshotReceiver) (data : Bytes) :
    SnapshotReceiver × Except SnapshotError (Option ReceivedSnapshot) :=
  if r.header.total < (r.data.length + data.length : Nat) then
    (r.reset, .error (.overruns r.header.total))
  else
    let received := r.data ++ data
    if received.length < r.header.total then ({ r with data := received }, .ok none)
    else if sha256 received ≠ r.header.digest then
      ({ r with active := false, data := [] }, .error (.digest r.header.frame received.length))
    else
      ({ r with active := false, data := [] },
        .ok (some { frame := r.header.frame, data := received, stateHash := r.header.stateHash,
                    hasStateHash := r.header.hasStateHash }))

def accept (sha256 : Bytes → SnapshotDigest) (r : SnapshotReceiver) (packet : Bytes) :
    SnapshotReceiver × Except SnapshotError (Option ReceivedSnapshot) :=
  match decodeSnapshotChunk packet r.maxBytes with
  | .error err => (r.reset, .error (.corrupt err))
  | .ok chunk =>
      if chunk.transfer ≠ r.transfer then
        if ¬ chunk.first then (r.reset, .error (.startsAt chunk.transfer chunk.offset))
        else
          -- a new transfer replaces the one under way
          take sha256 { r with transfer := chunk.transfer, active := true, data := []
                               header := { chunk with data := [] } } chunk.data
      else if ¬ r.active ∨ chunk.offset < r.data.length then (r, .ok none)
      else if (r.data.length : Int) < chunk.offset then
        (r.reset, .error (.skips chunk.offset r.data.length))
      else take sha256 r chunk.data

end SnapshotReceiver

end Roost.Lockstep
