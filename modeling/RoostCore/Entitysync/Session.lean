import Mathlib.Data.List.Sort
import RoostCore.Entitysync.Frame
import RoostCore.Go.Table

/-! One receiver as the manager knows it: its clock, the references it has been given and
the frames that are made for it (`entitysync/session.go`, `entitysync/wire.go`). Copies of
a session are values, so that the copying of the reference tables on their first change
and the borrowed buffers are not modelled, nor are the counts that go to the metrics. -/
namespace Roost.Entitysync
open Go

section Update

structure SyncProfile where
  key : Bytes
  lod : UInt8
  schemaVersion : UInt32
  deriving DecidableEq

/-- "default". -/
def defaultKey : Bytes := [100, 101, 102, 97, 117, 108, 116]

def SyncProfile.normalize (p : SyncProfile) : SyncProfile :=
  if p.key = [] then { p with key := defaultKey } else p

structure FrozenSyncPayload where
  codec : UInt16
  data : Bytes
  deriving DecidableEq

structure SubjectSyncUpdate where
  subjectID : Int64
  nameSpace : Bytes
  subjectKind : UInt32
  profile : SyncProfile
  version : UInt64
  baseVersion : UInt64
  mask : UInt64
  full : Bool
  reason : UInt32
  payload : FrozenSyncPayload
  deriving DecidableEq

def subjectMagic : UInt32 := 0x52535355

def wireVersion : UInt16 := 2

def subjectHeaderBytes : Nat := 64

def subjectFlagFull : UInt16 := 1

def encodeSubjectUpdate (update : SubjectSyncUpdate) (maxBytes : Int64) : Except FrameFault Bytes := do
  let profile := update.profile.normalize
  refuse (update.nameSpace.length > 65535 ∨ profile.key.length > 65535) .componentTooLarge
  let total :=
    subjectHeaderBytes + update.nameSpace.length + profile.key.length + update.payload.data.length
  refuse ((total : Int) > (orDefault maxBytes defaultLimits.maxComponentBytes).toInt ∨
    update.subjectID = 0) .componentTooLarge
  let flags : UInt16 := if update.full then subjectFlagFull else 0
  return bigEndian 4 subjectMagic.toNat ++ bigEndian 2 wireVersion.toNat ++ bigEndian 2 flags.toNat ++
    bigEndian 8 update.subjectID.toUInt64.toNat ++ bigEndian 4 update.subjectKind.toNat ++
    bigEndian 8 update.version.toNat ++ bigEndian 8 update.baseVersion.toNat ++
    bigEndian 8 update.mask.toNat ++ bigEndian 4 update.reason.toNat ++
    bigEndian 2 update.payload.codec.toNat ++ [profile.lod, 0] ++
    bigEndian 4 profile.schemaVersion.toNat ++ bigEndian 2 update.nameSpace.length ++
    bigEndian 2 profile.key.length ++ bigEndian 4 update.payload.data.length ++
    update.nameSpace ++ profile.key ++ update.payload.data

end Update

/-- What one subject contributes to a frame. A full snapshot becomes an update when the
object is held already. -/
inductive EntryKind
  | create (update : SubjectSyncUpdate)
  | update (update : SubjectSyncUpdate)
  | remove
  deriving DecidableEq

structure FrameEntry where
  subjectID : Int64
  kind : EntryKind
  deriving DecidableEq

def EntryKind.isRemove : EntryKind → Bool
  | .remove => true
  | _ => false

/-- What leaves comes first, so that its reference can be taken again; then by subject. -/
def FrameEntry.le (a b : FrameEntry) : Bool :=
  if a.kind.isRemove ≠ b.kind.isRemove then a.kind.isRemove else a.subjectID ≤ b.subjectID

structure WireConfig where
  limits : Limits
  schemaVersion : UInt16
  archetype : UInt16
  componentType : UInt16
  componentSchema : UInt16

def orOne (value : UInt16) : UInt16 := if value = 0 then 1 else value

/-- The limits within what the transport can carry. -/
def Limits.within (limits : Limits) (transport : Int64) : Limits :=
  { limits with
    maxFrameBytes :=
      if transport > 0 then min limits.maxFrameBytes transport else limits.maxFrameBytes }

/-- The part of `NewManager` that sets up the frames: limits and constants get their
defaults, the transport may lower the size of a frame, and a header has to fit. -/
def newWire (limits : Limits) (transport : Int64)
    (schemaVersion archetype componentType componentSchema : UInt16) : Option WireConfig :=
  let limits := (normalizeLimits limits).within transport
  if limits.maxFrameBytes < 32 then none
  else some {
    limits
    schemaVersion := orOne schemaVersion
    archetype := orOne archetype
    componentType := orOne componentType
    componentSchema := orOne componentSchema }

structure Session where
  epoch : UInt32
  tick : UInt32 := 0
  objects : Table Int64 ObjectRef := ∅
  generations : Table UInt16 UInt16 := ∅
  free : List UInt16 := []
  next : UInt16 := 1
  held : Bool := false
  framesSent : UInt64 := 0

inductive SyncFault
  | frame (fault : FrameFault)
  | entityTooLarge (subjectID : Int64) (bytes : Nat)
  | beforeBaseline
  | noBaseline (subjectID : Int64)
  deriving DecidableEq

namespace Session

def owesEmptyFull (s : Session) : Bool := !s.held && s.tick = 0 && s.framesSent > 0

/-- The identifier that was freed last, or else the first one that was never used. -/
def takeID (s : Session) : Except SyncFault (UInt16 × Session) :=
  match s.free.getLast? with
  | some id => .ok (id, { s with free := s.free.dropLast })
  | none =>
      if s.next = 0 then .error (.frame .objectLimit)
      else .ok (s.next, { s with next := s.next + 1 })

def nextGeneration (last : UInt16) : UInt16 := if last + 1 = 0 then 1 else last + 1

def allocate (s : Session) (subjectID : Int64) (maxObjects : Int64) :
    Except SyncFault (ObjectRef × Session) := do
  refuse ((s.objects.pairs.length : Int) ≥ maxObjects.toInt) (.frame .objectLimit)
  let (id, s) ← s.takeID
  let generation := nextGeneration ((s.generations.get id).getD 0)
  let ref : ObjectRef := { id, generation }
  return (ref, { s with
    generations := s.generations.set id generation, objects := s.objects.set subjectID ref })

def release (s : Session) (subjectID : Int64) : Session :=
  match s.objects.get subjectID with
  | none => s
  | some ref => { s with objects := s.objects.remove subjectID, free := s.free ++ [ref.id] }

def components (cfg : WireConfig) (data : Bytes) : List ComponentDelta :=
  [{ operation := componentSet, typeID := cfg.componentType, schemaVersion := cfg.componentSchema, data }]

def encodeUpdate (cfg : WireConfig) (update : SubjectSyncUpdate) : Except SyncFault Bytes :=
  (encodeSubjectUpdate update cfg.limits.maxComponentBytes).mapError .frame

/-- `objectFor`. The remove of an object that the session never held is nothing. -/
def objectFor (s : Session) (entry : FrameEntry) (cfg : WireConfig) :
    Except SyncFault (Option ObjectDelta × Session) :=
  match entry.kind, s.objects.get entry.subjectID with
  | .create update, none => do
      let (ref, s) ← s.allocate entry.subjectID cfg.limits.maxObjects
      let data ← encodeUpdate cfg update
      return (some {
        operation := objectCreate, ref, archetype := cfg.archetype
        components := components cfg data }, s)
  | .create update, some ref => do
      let data ← encodeUpdate cfg update
      return (some {
        operation := objectUpdate, ref, archetype := cfg.archetype
        components := components cfg data }, s)
  | .update _, none => .error (.noBaseline entry.subjectID)
  | .update update, some ref => do
      let data ← encodeUpdate cfg update
      return (some {
        operation := objectUpdate, ref, archetype := 0, components := components cfg data }, s)
  | .remove, none => .ok (none, s)
  | .remove, some ref =>
      .ok (some { operation := objectRemove, ref, archetype := 0, components := [] },
        s.release entry.subjectID)

end Session

/-- A frame with the session as it is once the frame is admitted. -/
structure EncodedFrame where
  payload : Bytes
  next : Session

def wireStream : UInt64 := 1

/-- The variables of the loop of `encode`. -/
structure Packing where
  session : Session
  frames : List EncodedFrame := []
  objects : List ObjectDelta := []
  size : Nat := 32

namespace Packing

/-- The frame that the collected objects make. -/
def frame (cfg : WireConfig) (p : Packing) : Frame where
  streamID := wireStream
  epoch := p.session.epoch
  tick := p.session.tick + 1
  schemaVersion := cfg.schemaVersion
  kind := if p.session.tick = 0 then full else delta
  baseTick := p.session.tick
  objects := p.objects

/-- The closure `finish`. -/
def finish (cfg : WireConfig) (p : Packing) : Except SyncFault Packing :=
  if p.objects = [] ∧ (p.frames ≠ [] ∨ p.session.owesEmptyFull = false) then .ok p
  else do
    let payload ← (encodeFrame (p.frame cfg) cfg.limits).mapError .frame
    let next := { p.session with
      tick := p.session.tick + 1, framesSent := p.session.framesSent + 1 }
    return { p with session := next, frames := p.frames ++ [{ payload, next }] }

def entryBytes (cfg : WireConfig) (entry : FrameEntry) : Except SyncFault Nat :=
  match entry.kind with
  | .remove => .ok 9
  | .create update | .update update => do
      let data ← Session.encodeUpdate cfg update
      return 9 + (9 + data.length)

/-- Starts the next frame when the object has no room in this one. -/
def turn (cfg : WireConfig) (p : Packing) (bytes : Nat) : Except SyncFault Packing :=
  let limits := normalizeLimits cfg.limits
  if p.objects ≠ [] ∧ ((p.objects.length : Int) = limits.maxObjects.toInt ∨
      (bytes : Int) > limits.maxFrameBytes.toInt - p.size) then do
    let p ← p.finish cfg
    return { p with objects := [], size := 32 }
  else .ok p

/-- Puts the object of an entry into the frame. -/
def append (cfg : WireConfig) (p : Packing) (entry : FrameEntry) (bytes : Nat) :
    Except SyncFault Packing := do
  let (object, s) ← p.session.objectFor entry cfg
  match object with
  | none => return p
  | some object =>
      refuse (s.tick = 0 ∧ object.operation ≠ objectCreate) .beforeBaseline
      return { p with session := s, objects := p.objects ++ [object], size := p.size + bytes }

/-- One round of the loop. -/
def place (cfg : WireConfig) (p : Packing) (entry : FrameEntry) : Except SyncFault Packing :=
  if entry.kind = .remove ∧ p.session.objects.get entry.subjectID = none then .ok p
  else do
    let bytes ← entryBytes cfg entry
    refuse ((bytes : Int) > (normalizeLimits cfg.limits).maxFrameBytes.toInt - 32)
      (.entityTooLarge entry.subjectID (bytes + 32))
    let p ← p.turn cfg bytes
    p.append cfg entry bytes

end Packing

/-- `encode`. Entries of one subject, which a tick does not have twice, stay in their order. -/
def Session.encode (s : Session) (entries : List FrameEntry) (cfg : WireConfig) :
    Except SyncFault (List EncodedFrame) := do
  let p ← (entries.insertionSort (FrameEntry.le · ·)).foldlM (Packing.place cfg) { session := s }
  let p ← p.finish cfg
  return p.frames

end Roost.Entitysync
