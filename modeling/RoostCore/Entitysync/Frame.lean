import RoostCore.Go.Endian
import RoostCore.Go.Writer

/-! The wire format of one frame of entity synchronisation (`sync/frame/codec.go`,
`sync/frame/frame_limits.go`). Kinds and operations are bytes, since a frame that is read
may carry any. -/
namespace Roost.Entitysync
open Go

structure Limits where
  maxObjects : Int64
  maxComponentsPerObject : Int64
  maxComponentBytes : Int64
  maxFrameBytes : Int64
  deriving DecidableEq

def defaultLimits : Limits where
  maxObjects := 100
  maxComponentsPerObject := 64
  maxComponentBytes := 64 * 1024
  maxFrameBytes := 4 * 1024 * 1024

def orDefault (value default : Int64) : Int64 := if value ≤ 0 then default else value

def normalizeLimits (limits : Limits) : Limits where
  maxObjects := orDefault limits.maxObjects defaultLimits.maxObjects
  maxComponentsPerObject :=
    orDefault limits.maxComponentsPerObject defaultLimits.maxComponentsPerObject
  maxComponentBytes := orDefault limits.maxComponentBytes defaultLimits.maxComponentBytes
  maxFrameBytes := orDefault limits.maxFrameBytes defaultLimits.maxFrameBytes

structure ObjectRef where
  id : UInt16
  generation : UInt16
  deriving DecidableEq

def ObjectRef.valid (ref : ObjectRef) : Bool := ref.id ≠ 0 && ref.generation ≠ 0

structure SnapshotMeta where
  streamID : UInt64 := 0
  epoch : UInt32 := 0
  tick : UInt32 := 0
  schemaVersion : UInt16 := 0
  deriving DecidableEq

def full : UInt8 := 1

def delta : UInt8 := 2

def objectCreate : UInt8 := 1

def objectUpdate : UInt8 := 2

def objectRemove : UInt8 := 3

def componentSet : UInt8 := 1

def componentRemove : UInt8 := 2

structure ComponentDelta where
  operation : UInt8
  typeID : UInt16
  schemaVersion : UInt16
  data : Bytes
  deriving DecidableEq

structure ObjectDelta where
  operation : UInt8
  ref : ObjectRef
  archetype : UInt16
  components : List ComponentDelta
  deriving DecidableEq

structure Frame extends SnapshotMeta where
  kind : UInt8
  baseTick : UInt32
  objects : List ObjectDelta
  deriving DecidableEq

/-- The errors of the package; those that wrap `ErrInvalidFrame` keep their own text. -/
inductive FrameFault
  | invalidObjectRef
  | objectLimit
  | componentLimit
  | componentTooLarge
  | frameTooLarge
  | baselineMismatch
  | metadata
  | frameKind (kind : UInt8)
  | fullWithBaseline
  | objectOperation
  | duplicateObject
  | fullWithoutCreate
  | removeWithComponents
  | componentDelta
  | duplicateComponent
  | createWithRemove
  | zeroSchema
  | removeWithPayload
  | truncated
  | header
  | trailing
  | streamChanged
  deriving DecidableEq

section Validate

def SnapshotMeta.validate (m : SnapshotMeta) : Except FrameFault Unit :=
  refuse (m.streamID = 0 ∨ m.epoch = 0 ∨ m.tick = 0 ∨ m.schemaVersion = 0) .metadata

def validateComponent (limits : Limits) (operation : UInt8) (seen : List UInt16)
    (component : ComponentDelta) : Except FrameFault (List UInt16) := do
  refuse (component.typeID = 0 ∨ component.operation < componentSet ∨
    component.operation > componentRemove) .componentDelta
  refuse (component.typeID ∈ seen) .duplicateComponent
  refuse (operation = objectCreate ∧ component.operation ≠ componentSet) .createWithRemove
  refuse (component.operation = componentSet ∧ component.schemaVersion = 0) .zeroSchema
  refuse (component.operation = componentRemove ∧
    (component.schemaVersion ≠ 0 ∨ component.data ≠ [])) .removeWithPayload
  refuse ((component.data.length : Int) > limits.maxComponentBytes.toInt) .componentTooLarge
  return component.typeID :: seen

def validateObject (limits : Limits) (kind : UInt8) (seen : List ObjectRef) (object : ObjectDelta) :
    Except FrameFault (List ObjectRef) := do
  refuse (object.ref.valid = false) .invalidObjectRef
  refuse (object.operation < objectCreate ∨ object.operation > objectRemove) .objectOperation
  refuse (object.ref ∈ seen) .duplicateObject
  refuse (kind = full ∧ object.operation ≠ objectCreate) .fullWithoutCreate
  refuse (object.operation = objectCreate ∧ object.archetype = 0) .invalidObjectRef
  refuse (object.operation = objectRemove ∧ object.components ≠ []) .removeWithComponents
  refuse ((object.components.length : Int) > (limits.maxComponentsPerObject * 2).toInt)
    .componentLimit
  let _ ← object.components.foldlM (validateComponent limits object.operation) []
  return object.ref :: seen

def validateFrame (frame : Frame) (limits : Limits) : Except FrameFault Unit := do
  frame.toSnapshotMeta.validate
  refuse (frame.kind ≠ full ∧ frame.kind ≠ delta) (.frameKind frame.kind)
  refuse (frame.kind = full ∧ frame.baseTick ≠ 0) .fullWithBaseline
  refuse (frame.kind = delta ∧ (frame.baseTick = 0 ∨ frame.baseTick ≥ frame.tick))
    .baselineMismatch
  refuse ((frame.objects.length : Int) > (limits.maxObjects * 2).toInt) .objectLimit
  let _ ← frame.objects.foldlM (validateObject limits frame.kind) []
  return

end Validate

section Encode

abbrev Piece := Except FrameFault Bytes

def frameMagic : UInt32 := 0x43525031

def protocolVersion : UInt16 := 1

/-- The loop that estimates the length before anything is written. -/
def addComponent (limits : Limits) (size : Nat) (component : ComponentDelta) :
    Except FrameFault Nat :=
  let size := size + (9 + component.data.length)
  do
    refuse ((size : Int) > limits.maxFrameBytes.toInt) .frameTooLarge
    return size

def addObject (limits : Limits) (size : Nat) (object : ObjectDelta) : Except FrameFault Nat :=
  let size := size + 9
  do
    refuse ((size : Int) > limits.maxFrameBytes.toInt) .frameTooLarge
    object.components.foldlM (addComponent limits) size

def appendUint8 (value : UInt8) : Piece := .ok [value]

def appendUint16 (value : UInt16) : Piece := .ok (bigEndian 2 value.toNat)

def appendUint32 (value : UInt32) : Piece := .ok (bigEndian 4 value.toNat)

def appendUint64 (value : UInt64) : Piece := .ok (bigEndian 8 value.toNat)

def appendComponent (component : ComponentDelta) : Piece := joined [
  appendUint8 component.operation,
  appendUint16 component.typeID,
  appendUint16 component.schemaVersion,
  .ok (bigEndian 4 component.data.length),
  .ok component.data]

def appendObject (object : ObjectDelta) : Piece := joined [
  checked (object.components.length ≤ 65535) .componentLimit,
  appendUint8 object.operation,
  appendUint16 object.ref.id,
  appendUint16 object.ref.generation,
  appendUint16 object.archetype,
  .ok (bigEndian 2 object.components.length),
  joined (object.components.map appendComponent)]

/-- The bytes of a frame that has passed the checks. -/
def appendFrame (frame : Frame) : Piece := joined [
  appendUint32 frameMagic,
  appendUint16 protocolVersion,
  appendUint8 frame.kind,
  appendUint8 0,
  appendUint64 frame.streamID,
  appendUint32 frame.epoch,
  appendUint32 frame.tick,
  appendUint32 frame.baseTick,
  appendUint16 frame.schemaVersion,
  .ok (bigEndian 2 frame.objects.length),
  joined (frame.objects.map appendObject)]

/-- `frame.Encode`. -/
def encodeFrame (frame : Frame) (limits : Limits) : Except FrameFault Bytes := do
  let limits := normalizeLimits limits
  validateFrame frame limits
  refuse (frame.objects.length > 65535) .objectLimit
  let _ ← frame.objects.foldlM (addObject limits) 32
  appendFrame frame

end Encode

section Decode

abbrev Read := Reader FrameFault

def readUint8 : Read UInt8 := Reader.byte .truncated

def readUint16 : Read UInt16 := do
  let value ← Reader.big 2 .truncated
  return .ofNat value

def readUint32 : Read UInt32 := do
  let value ← Reader.big 4 .truncated
  return .ofNat value

def readUint64 : Read UInt64 := do
  let value ← Reader.big 8 .truncated
  return .ofNat value

/-- The limit of a payload is cut to 32 bits before it is compared. -/
def readComponent (limits : Limits) : Read ComponentDelta := do
  let operation ← readUint8
  let typeID ← readUint16
  let schemaVersion ← readUint16
  let length ← readUint32
  let left ← Reader.remaining
  Reader.refuse (length > limits.maxComponentBytes.toUInt64.toUInt32 ∨ length.toNat > left)
    .componentTooLarge
  let data ← Reader.take length.toNat .truncated
  return { operation, typeID, schemaVersion, data }

def readObject (limits : Limits) : Read ObjectDelta := do
  let operation ← readUint8
  let id ← readUint16
  let generation ← readUint16
  let archetype ← readUint16
  let count ← readUint16
  Reader.refuse ((count.toNat : Int) > (limits.maxComponentsPerObject * 2).toInt) .componentLimit
  let components ← (readComponent limits).times count.toNat
  return { operation, ref := { id, generation }, archetype, components }

def readFrame (limits : Limits) : Read Frame := do
  let magic ← readUint32
  let protocol ← readUint16
  let kind ← readUint8
  let reserved ← readUint8
  let streamID ← readUint64
  let epoch ← readUint32
  let tick ← readUint32
  let baseTick ← readUint32
  let schemaVersion ← readUint16
  let count ← readUint16
  Reader.refuse (magic ≠ frameMagic ∨ protocol ≠ protocolVersion ∨ reserved ≠ 0) .header
  Reader.refuse ((count.toNat : Int) > (limits.maxObjects * 2).toInt) .objectLimit
  let objects ← (readObject limits).times count.toNat
  return { streamID, epoch, tick, schemaVersion, kind, baseTick, objects }

/-- `frame.Decode`. -/
def decodeFrame (data : Bytes) (limits : Limits) : Except FrameFault Frame := do
  let limits := normalizeLimits limits
  refuse (data.length = 0 ∨ (data.length : Int) > limits.maxFrameBytes.toInt) .frameTooLarge
  let (frame, rest) ← readFrame limits data
  refuse (rest ≠ []) .trailing
  validateFrame frame limits
  return frame

end Decode

end Roost.Entitysync
