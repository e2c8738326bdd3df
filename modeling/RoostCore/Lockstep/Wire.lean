import RoostCore.Go.Ring
import RoostCore.Go.Varint
import RoostCore.Go.Writer
import RoostCore.Lockstep.Sequencer

/-! The packets a lockstep match sends (`wire.go`): broadcasts and catch-up pages of
frames, and the notice that a recovery has failed. -/
namespace Roost.Lockstep
open Go List

def wireMagic : UInt8 := 0xC7

def wireVersion : UInt8 := 1

def maxBroadcastFrames : Nat := 64

/-- `ErrFrameCorrupt` with the check that failed. -/
inductive Corrupt where
  | header
  | varint
  | frames (count : Nat)
  | frameID (id : Nat)
  | notIncreasing (id : Nat)
  | inputCount (count : Nat)
  | player (id : Nat)
  | payloadLength (length : Nat)
  | trailing (bytes : Nat)
  | noticeHeader
  | notice (reason first start : Nat)
  | chunkHeader
  | chunkOffset (transfer offset : Nat)
  | chunkFrame (frame total limit : Nat)
  | chunkFlags (flags : UInt8)
  | chunkDigest
  | chunkFirst (bytes total : Nat)
  | chunkEmpty
  deriving DecidableEq, Repr

/-- `uint32(player)`. -/
def playerCode (player : Int) : Nat := (player % 2 ^ 32).toNat

/-- `PlayerID(uint32(code))`. -/
def playerOf (code : Nat) : Int := if code < 2 ^ 31 then code else code - 2 ^ 32

def writeInput (input : Input) : Bytes :=
  uvarint (playerCode input.player) ++ (uvarint input.payload.length ++ input.payload)

def writeFrame (frame : Frame) : Bytes :=
  uvarint frame.id ++ (uvarint frame.inputs.length ++ frame.inputs.flatMap writeInput)

def encodeBroadcast (frames : List Frame) : Bytes :=
  wireMagic :: wireVersion :: (uvarint frames.length ++ frames.flatMap writeFrame)

/-- `readUvarint` of the source. -/
def varint : Reader Corrupt Nat := fun data =>
  match readUvarint data with
  | some read => .ok read
  | none => .error .varint

def readInput : Reader Corrupt Input := do
  let player ← varint
  Reader.refuse (2 ^ 32 - 1 < player) (.player player)
  let length ← varint
  let left ← Reader.remaining
  Reader.refuse (maxInputPayloadBytes < length ∨ left < length) (.payloadLength length)
  let payload ← Reader.take length (.payloadLength length)
  return { player := playerOf player, payload }

def readFrame (last : Nat) : Reader Corrupt Frame := do
  let id ← varint
  Reader.refuse (id = 0 ∨ 2 ^ 32 - 1 < id) (.frameID id)
  Reader.refuse (id ≤ last) (.notIncreasing id)
  let count ← varint
  let left ← Reader.remaining
  Reader.refuse (maxFrameInputs < count ∨ left < count) (.inputCount count)
  let inputs ← readInput.times count
  return { id, inputs }

def readFrames (last : Nat) : Nat → Reader Corrupt (List Frame)
  | 0 => pure []
  | count + 1 => do
      let frame ← readFrame last
      let rest ← readFrames frame.id count
      return frame :: rest

/-- A packet after its magic and version. -/
def readPacket : Reader Corrupt (List Frame) := do
  let count ← varint
  Reader.refuse (maxBroadcastFrames < count) (.frames count)
  readFrames 0 count

def decodeBroadcast (packet : Bytes) : Except Corrupt (List Frame) :=
  match packet with
  | magic :: version :: rest =>
      if rest = [] ∨ magic ≠ wireMagic ∨ version ≠ wireVersion then .error .header
      else
        match readPacket rest with
        | .error err => .error err
        | .ok (frames, []) => .ok frames
        | .ok (_, left) => .error (.trailing left.length)
  | _ => .error .header

structure Input.Fits (input : Input) : Prop where
  low : -2 ^ 31 ≤ input.player
  high : input.player < 2 ^ 31
  payload : input.payload.length ≤ maxInputPayloadBytes

structure Frame.Fits (frame : Frame) : Prop where
  positive : 0 < frame.id
  bounded : frame.id < 2 ^ 32
  count : frame.inputs.length ≤ maxFrameInputs
  inputs : ∀ input ∈ frame.inputs, input.Fits

theorem playerOf_playerCode (low : -2 ^ 31 ≤ player) (high : player < 2 ^ 31) :
    playerOf (playerCode player) = player := by
  unfold playerOf playerCode
  split <;> omega

theorem playerCode_lt (player : Int) : playerCode player < 2 ^ 32 := by
  unfold playerCode
  omega

theorem reads_varint (fits : n < 2 ^ 64) : Reads varint (uvarint n) n := by
  intro rest
  rw [varint, readUvarint_uvarint n rest fits]

theorem reads_input (fits : input.Fits) : Reads readInput (writeInput input) input := by
  have code := playerCode_lt input.player
  have size : maxInputPayloadBytes = 1024 := rfl
  have length := fits.payload
  refine (reads_varint (by omega)).bind (.refuse (by omega) ?_)
  refine (reads_varint (by omega)).bind (.remaining fun left enough => .refuse ?_ ?_)
  · omega
  · have payload : Reads (Reader.take input.payload.length (Corrupt.payloadLength input.payload.length))
      input.payload input.payload := .take rfl
    rw [playerOf_playerCode fits.low fits.high]
    exact payload.result

theorem length_writeInput_pos (input : Input) : 1 ≤ (writeInput input).length := by
  have := uvarint_length_pos (playerCode input.player)
  rw [writeInput, length_append]
  omega

theorem length_flatMap_ge {write : α → Bytes} (values : List α)
    (each : ∀ value, 1 ≤ (write value).length) : values.length ≤ (values.flatMap write).length := by
  induction values with
  | nil => simp
  | cons head tail ih =>
    have := each head
    rw [flatMap_cons, length_append, length_cons]
    omega

theorem reads_frame {last : Nat} (fits : frame.Fits) (later : last < frame.id) :
    Reads (readFrame last) (writeFrame frame) frame := by
  have positive := fits.positive
  have bounded := fits.bounded
  have most : maxFrameInputs = 256 := rfl
  have count := fits.count
  have room := length_flatMap_ge frame.inputs length_writeInput_pos
  refine (reads_varint (by omega)).bind (.refuse (by omega) (.refuse (by omega) ?_))
  refine (reads_varint (by omega)).bind (.remaining fun left enough => .refuse ?_ ?_)
  · omega
  · exact (Reads.times fun input member => reads_input (fits.inputs input member)).result

theorem reads_frames (fit : ∀ frame ∈ frames, frame.Fits)
    (later : ∀ frame ∈ frames, last < frame.id) (ascending : frames.Pairwise fun a b => a.id < b.id) :
    Reads (readFrames last frames.length) (frames.flatMap writeFrame) frames := by
  induction frames generalizing last with
  | nil => exact .pure []
  | cons frame rest ih =>
    rw [pairwise_cons] at ascending
    have head := reads_frame (fit frame mem_cons_self) (later frame mem_cons_self)
    have tail : Reads (readFrames frame.id rest.length) (rest.flatMap writeFrame) rest :=
      ih (fun other member => fit other (mem_cons_of_mem _ member)) ascending.1 ascending.2
    exact head.bind (tail.result (f := (frame :: ·)))

theorem decodeBroadcast_encodeBroadcast (few : frames.length ≤ maxBroadcastFrames)
    (fit : ∀ frame ∈ frames, frame.Fits) (ascending : frames.Pairwise fun a b => a.id < b.id) :
    decodeBroadcast (encodeBroadcast frames) = .ok frames := by
  have most : maxBroadcastFrames = 64 := rfl
  have read : Reads readPacket (uvarint frames.length ++ frames.flatMap writeFrame) frames := by
    refine (reads_varint (by omega)).bind (.refuse (by omega) ?_)
    exact reads_frames fit (fun frame member => (fit frame member).positive) ascending
  have nonempty : uvarint frames.length ++ frames.flatMap writeFrame ≠ [] := by
    intro empty
    have := uvarint_length_pos frames.length
    rw [(append_eq_nil_iff.mp empty).1] at this
    contradiction
  rw [encodeBroadcast, decodeBroadcast, if_neg (by simp [nonempty]), read.whole]

def normalizeRedundancyDepth (depth : Int) : Nat :=
  if depth ≤ 0 then 3 else if (maxBroadcastFrames : Int) < depth then maxBroadcastFrames
  else depth.toNat

instance : Inhabited Frame := ⟨{ id := 0, inputs := [] }⟩

/-- The ring of the most recent frames. -/
abbrev RedundantEncoder := Go.Ring Frame

def newRedundantEncoder (depth : Int) : RedundantEncoder :=
  { cells := replicate (normalizeRedundancyDepth depth) default }

namespace RedundantEncoder

/-- Adds a frame and encodes it with its predecessors. -/
def push (e : RedundantEncoder) (frame : Frame) : RedundantEncoder × Bytes :=
  let next := Ring.push e frame
  (next, encodeBroadcast next.values)

end RedundantEncoder

theorem normalizeRedundancyDepth_bounds (depth : Int) :
    0 < normalizeRedundancyDepth depth ∧ normalizeRedundancyDepth depth ≤ maxBroadcastFrames := by
  have most : maxBroadcastFrames = 64 := rfl
  unfold normalizeRedundancyDepth
  split
  · omega
  · split <;> omega

def noticeMagic : UInt8 := 0xC9

def noticeVersion : UInt8 := 2

inductive RecoveryFailureReason where
  | historyTrimmed | snapshotUnavailable | snapshotTooLarge | expired
  deriving DecidableEq, Repr

def RecoveryFailureReason.code : RecoveryFailureReason → Nat
  | .historyTrimmed => 1
  | .snapshotUnavailable => 2
  | .snapshotTooLarge => 3
  | .expired => 4

def RecoveryFailureReason.ofCode : Nat → Option RecoveryFailureReason
  | 1 => some .historyTrimmed
  | 2 => some .snapshotUnavailable
  | 3 => some .snapshotTooLarge
  | 4 => some .expired
  | _ => none

/-- `first` is the frame the client misses first, `start` the oldest one that is kept. -/
structure CatchupUnservableError where
  reason : RecoveryFailureReason
  first : Nat
  start : Nat
  deriving DecidableEq, Repr

def encodeRecoveryFailure (notice : CatchupUnservableError) : Bytes :=
  noticeMagic :: noticeVersion ::
    (uvarint notice.reason.code ++ (uvarint notice.first ++ uvarint notice.start))

def isCatchupNotice (packet : Bytes) : Bool := packet.head? == some noticeMagic

/-- A notice after its magic and version, before its fields are checked. -/
def readNotice : Reader Corrupt (Nat × Nat × Nat) := do
  let reason ← varint
  let first ← varint
  let start ← varint
  return (reason, first, start)

def decodeCatchupUnservable (packet : Bytes) : Except Corrupt CatchupUnservableError :=
  match packet with
  | magic :: version :: rest =>
      if rest.length < 3 ∨ magic ≠ noticeMagic ∨ version ≠ noticeVersion then .error .noticeHeader
      else
        match readNotice rest with
        | .error err => .error err
        | .ok ((code, first, start), left) =>
            match RecoveryFailureReason.ofCode code with
            | none => .error (.notice code first start)
            | some reason =>
                if left.length ≠ 0 ∨ first = 0 ∨ 2 ^ 32 - 1 < first ∨ 2 ^ 32 - 1 < start ∨
                    (reason = .historyTrimmed ∧ start ≤ first) then
                  .error (.notice code first start)
                else .ok { reason, first, start }
  | _ => .error .noticeHeader

structure CatchupUnservableError.Fits (notice : CatchupUnservableError) : Prop where
  positive : 0 < notice.first
  first : notice.first < 2 ^ 32
  start : notice.start < 2 ^ 32
  trimmed : notice.reason = .historyTrimmed → notice.first < notice.start

theorem RecoveryFailureReason.ofCode_code (reason : RecoveryFailureReason) :
    ofCode reason.code = some reason := by
  cases reason <;> rfl

theorem decode_encodeRecoveryFailure (fits : notice.Fits) :
    decodeCatchupUnservable (encodeRecoveryFailure notice) = .ok notice := by
  have code : notice.reason.code < 2 ^ 64 := by cases notice.reason <;> decide
  have first := fits.first
  have start := fits.start
  have positive := fits.positive
  have read : Reads readNotice
      (uvarint notice.reason.code ++ (uvarint notice.first ++ uvarint notice.start))
      (notice.reason.code, notice.first, notice.start) :=
    (reads_varint code).bind ((reads_varint (by omega)).bind (reads_varint (by omega)).result)
  have size : ¬ (uvarint notice.reason.code ++
      (uvarint notice.first ++ uvarint notice.start)).length < 3 := by
    have one := uvarint_length_pos notice.reason.code
    have two := uvarint_length_pos notice.first
    have three := uvarint_length_pos notice.start
    simp only [length_append]
    omega
  have legal : ¬ (notice.reason = .historyTrimmed ∧ notice.start ≤ notice.first) := fun both => by
    have := fits.trimmed both.1
    omega
  rw [encodeRecoveryFailure, decodeCatchupUnservable, if_neg (by simpa using size), read.whole]
  dsimp only
  rw [RecoveryFailureReason.ofCode_code]
  dsimp only
  rw [if_neg]
  simp only [length_nil, ne_eq, not_true_eq_false, false_or, not_or]
  exact ⟨by omega, by omega, by omega, legal⟩

end Roost.Lockstep
