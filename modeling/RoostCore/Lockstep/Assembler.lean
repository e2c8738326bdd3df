import RoostCore.Lockstep.SnapshotWire

/-! The client side of a match (`assembler.go`): frames that arrive more than once or out
of order are released once and in order. -/
namespace Roost.Lockstep
open Go

inductive ReceiveError where
  | notApplied (frame : Nat)
  | corrupt (fault : Corrupt)
  | unservable (notice : CatchupUnservableError)
  | snapshot (fault : SnapshotError)
  | bufferFull (frame gap : Nat)
  deriving DecidableEq, Repr

/-- `unapplied` is the frame of a snapshot that was handed over and not applied yet. -/
structure FrameAssembler where
  next : Nat := 1
  buffer : Table Nat Frame := ∅
  maxBuffer : Nat
  duplicates : Nat := 0
  healed : Nat := 0
  snapshots : SnapshotReceiver
  unapplied : Option Nat := none

structure Delivery where
  frames : List Frame := []
  snapshot : Option ReceivedSnapshot := none

def newFrameAssembler (maxBuffer maxSnapshotBytes : Int) : FrameAssembler where
  maxBuffer := if maxBuffer ≤ 0 then 256 else maxBuffer.toNat
  snapshots := newSnapshotReceiver maxSnapshotBytes

namespace FrameAssembler

def bump (a : FrameAssembler) : FrameAssembler := { a with next := (a.next + 1) % 2 ^ 32 }

/-- The inner loop, for at most `fuel` buffered frames. -/
def drainFor : Nat → FrameAssembler → FrameAssembler × List Frame
  | 0, a => (a, [])
  | fuel + 1, a =>
      match a.buffer.get a.next with
      | none => (a, [])
      | some frame =>
          let (b, released) := drainFor fuel { a with buffer := a.buffer.remove a.next }.bump
          (b, frame :: released)

/-- Releases the frames that follow on the awaited one. Every iteration takes one frame
out of the buffer. -/
def drain (a : FrameAssembler) : FrameAssembler × List Frame :=
  drainFor a.buffer.pairs.length a

/-- The loop over the frames of a packet. -/
def ingest (a : FrameAssembler) : List Frame → FrameAssembler × List Frame × Option ReceiveError
  | [] => (a, [], none)
  | frame :: rest =>
      if frame.id < a.next then { a with duplicates := a.duplicates + 1 }.ingest rest
      else if frame.id = a.next then
        let (b, drained) := a.bump.drain
        let (c, released, err) := b.ingest rest
        (c, frame :: (drained ++ released), err)
      else if (a.buffer.get frame.id).isSome then
        { a with duplicates := a.duplicates + 1 }.ingest rest
      else if a.maxBuffer ≤ a.buffer.pairs.length then
        (a, [], some (.bufferFull frame.id a.next))
      else
        { a with buffer := a.buffer.set frame.id frame, healed := a.healed + 1 }.ingest rest

def ingestFrames (a : FrameAssembler) (frames : List Frame) :
    FrameAssembler × List Frame × Option ReceiveError :=
  match a.unapplied with
  | some frame => (a, [], some (.notApplied frame))
  | none =>
      if a.snapshots.active then
        ({ a with duplicates := a.duplicates + frames.length }, [], none)
      else a.ingest frames

def receive (sha256 : Bytes → SnapshotDigest) (a : FrameAssembler) (packet : Bytes) :
    FrameAssembler × Delivery × Option ReceiveError :=
  match a.unapplied with
  | some frame => (a, {}, some (.notApplied frame))
  | none =>
      if isCatchupNotice packet then
        match decodeCatchupUnservable packet with
        | .error err => (a, {}, some (.corrupt err))
        | .ok notice => (a, {}, some (.unservable notice))
      else if isSnapshotChunk packet then
        let (snapshots, result) := a.snapshots.accept sha256 packet
        match result with
        | .error err => ({ a with snapshots }, {}, some (.snapshot err))
        | .ok none => ({ a with snapshots }, {}, none)
        | .ok (some snapshot) =>
            ({ a with snapshots, unapplied := some snapshot.frame },
              { snapshot := some snapshot }, none)
      else
        match decodeBroadcast packet with
        | .error err => (a, {}, some (.corrupt err))
        | .ok frames =>
            let (b, released, err) := a.ingestFrames frames
            (b, { frames := released }, err)

def resumeAfterSnapshot (a : FrameAssembler) (frame : Nat) : FrameAssembler :=
  { a with next := (frame + 1) % 2 ^ 32, buffer := ∅, unapplied := none }

end FrameAssembler

end Roost.Lockstep
