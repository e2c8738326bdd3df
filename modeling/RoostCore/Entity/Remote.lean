import RoostCore.Go.Reader

/-! Commits of remote entities and their validation (`entity/remote_protocol.go`,
`entity/remote_snapshot.go`, `entity/resolver.go`). Strings are byte strings, as Go has
them. Of an entity ID only what a snapshot key is checked against is resolved; its layout is that
of `entity/idgen.go`. -/
namespace Roost.Entity
open Go

abbrev EntityKind := UInt8

def EntityKind.none : EntityKind := 0

abbrev DatabaseScope := UInt8

/-- A `[16]byte`. -/
abbrev TransactionID := { bytes : Bytes // bytes.length = 16 }

def TransactionID.isZero (id : TransactionID) : Bool := id.1.all (· == 0)

/-- What the process brings along: the kinds registered as remote and the checksum of
snapshots, a CRC-64. -/
structure Registry where
  isEntityKindRemoteCapable : EntityKind → Bool
  remoteSnapshotChecksum : Bytes → UInt64

structure EntityIDMeta where
  fullID : Int64
  kind : EntityKind

def getEntityKindFromID (id : Int64) : EntityKind := ((id.toUInt64 >>> 2) &&& 0xFF).toUInt8

def setRemoteCapableBit (id : Int64) : Int64 := (id.toUInt64 ||| (1 : UInt64) <<< 62).toInt64

def resolveEntityID (registry : Registry) (id : Int64) : EntityIDMeta :=
  let kind := getEntityKindFromID id
  if kind ≠ .none ∧ registry.isEntityKindRemoteCapable kind then
    { fullID := setRemoteCapableBit id, kind }
  else { fullID := id, kind }

structure RemoteSnapshotKey where
  tenant : UInt32
  entityID : Int64
  kind : EntityKind
  scope : UInt32
  policy : UInt32
  deriving DecidableEq

def RemoteSnapshotKey.valid (registry : Registry) (key : RemoteSnapshotKey) : Bool :=
  let resolved := resolveEntityID registry key.entityID
  resolved.fullID == key.entityID && resolved.kind == key.kind && key.kind != .none

def uniqueIDMask : UInt64 := (1 : UInt64) <<< 52 - 1

def getUniqueIDFromEntityID (id : Int64) : Int64 := ((id.toUInt64 >>> 10) &&& uniqueIDMask).toInt64

def makeEntityID (registry : Registry) (uniqueID : Int64) (category : UInt8) (kind : EntityKind)
    (remoteCapable : Bool) : Int64 :=
  let id := (uniqueID.toUInt64 &&& uniqueIDMask) <<< 10 ||| (kind.toUInt64 &&& 0xFF) <<< 2 |||
    (category.toUInt64 &&& 3)
  if remoteCapable ∨ kind ≠ .none ∧ registry.isEntityKindRemoteCapable kind then
    (id ||| (1 : UInt64) <<< 62).toInt64
  else id.toInt64

/-- What `ErrInvalidEntityID` is raised for. -/
inductive EntityIDFault
  | uniqueID (uniqueID : Int64)
  | category
  | kind

def buildEntityIDWithCategory (registry : Registry) (uniqueID : Int64) (category : UInt8)
    (kind : EntityKind) : Except EntityIDFault Int64 :=
  if uniqueID ≤ 0 ∨ uniqueIDMask < uniqueID.toUInt64 then .error (.uniqueID uniqueID)
  else if category = 0 then .error .category
  else if kind = .none then .error .kind
  else .ok (makeEntityID registry uniqueID category kind false)

theorem mask_bits : ∀ i < 64, uniqueIDMask.toBitVec.getLsbD i = decide (i < 52) ∧
    (255#64).getLsbD i = decide (i < 8) ∧ (3#64).getLsbD i = decide (i < 2) ∧
    (4611686018427387904#64).getLsbD i = decide (i = 62) := by
  decide

theorem kind_makeEntityID :
    getEntityKindFromID (makeEntityID registry uniqueID category kind remote) = kind := by
  apply UInt8.toBitVec_inj.mp
  ext i low
  have byte : (255#8)[i] = true := by revert i; decide
  have here := mask_bits i
  have above := mask_bits (2 + i)
  unfold makeEntityID
  split <;> simp [getEntityKindFromID, UInt64.toBitVec_or, byte] <;> grind

theorem unique_makeEntityID (within : ¬ uniqueIDMask < uniqueID.toUInt64) :
    getUniqueIDFromEntityID (makeEntityID registry uniqueID category kind remote) = uniqueID := by
  have kept : uniqueID.toUInt64 &&& uniqueIDMask = uniqueID.toUInt64 := by
    apply UInt64.toNat_inj.mp
    have small : uniqueID.toUInt64.toNat ≤ 2 ^ 52 - 1 := Nat.not_lt.mp within
    rw [UInt64.toNat_and]
    exact Nat.and_two_pow_sub_one_of_lt_two_pow (n := 52) (by omega)
  rw [← uniqueID.toInt64_toUInt64, ← kept]
  apply Int64.toBitVec_inj.mp
  ext i low
  have here := mask_bits i
  have above := mask_bits (10 + i)
  unfold makeEntityID
  split <;> simp [getUniqueIDFromEntityID, UInt64.toBitVec_or] <;> grind

/-- A full ID gives back the number and the kind it was built of, and a snapshot key may name it. -/
theorem entity_id_round_trip (registry : Registry) (uniqueID : Int64) (category : UInt8) (kind : EntityKind)
    (id : Int64) (built : buildEntityIDWithCategory registry uniqueID category kind = .ok id) :
    getUniqueIDFromEntityID id = uniqueID ∧ getEntityKindFromID id = kind ∧
      ∀ key : RemoteSnapshotKey, { key with entityID := id, kind }.valid registry = true := by
  unfold buildEntityIDWithCategory at built
  split_ifs at built with outside unclassed unkind
  cases built
  refine ⟨unique_makeEntityID fun past => outside (.inr past), kind_makeEntityID, fun key => ?_⟩
  simp only [RemoteSnapshotKey.valid, resolveEntityID, kind_makeEntityID]
  unfold makeEntityID
  split <;> simp_all [setRemoteCapableBit, UInt64.or_assoc]

theorem entity_id_round_trip_remote : ∃ id,
    buildEntityIDWithCategory ⟨fun _ => true, fun _ => 0⟩ 5 1 7 = .ok id ∧ getUniqueIDFromEntityID id = 5 :=
  ⟨_, rfl, (entity_id_round_trip _ 5 1 7 _ rfl).1⟩

structure RemoteSnapshotRecord where
  key : RemoteSnapshotKey
  baseVersion : UInt64
  stateVersion : UInt64
  markerEpoch : UInt64
  routeEpoch : UInt64
  schema : UInt32
  codec : UInt16
  full : Bool
  data : Bytes
  checksum : UInt64
  deriving DecidableEq

structure RemoteDataMutation where
  database : Bytes
  databaseScope : DatabaseScope
  collection : Bytes
  id : Int64
  version : UInt64
  mask : UInt64
  data : Bytes
  deriving DecidableEq

structure RemoteDataDelete where
  database : Bytes
  databaseScope : DatabaseScope
  collection : Bytes
  id : Int64
  deriving DecidableEq

structure RemoteCommit where
  transactionID : TransactionID
  entityID : Int64
  kind : EntityKind
  delete : Bool
  baseVersion : UInt64
  nextVersion : UInt64
  markerEpoch : UInt64
  lockFence : UInt64
  routeEpoch : UInt64
  schema : UInt32
  codec : UInt16
  mutations : List RemoteDataMutation
  deletes : List RemoteDataDelete
  snapshots : List RemoteSnapshotRecord
  invalidations : List RemoteSnapshotKey
  checksum : UInt64
  deriving DecidableEq

/-- The errors of a validation, by the text that each of them carries. -/
inductive RemoteFault
  | identity
  | versions (base next : UInt64)
  | ownershipEpoch
  | emptyMutations
  | deleteWithMutations
  | updateWithDeletes
  | mutation (index : Nat)
  | mutationIdentity
  | mutationVersion
  | duplicateMutation
  | delete (index : Nat)
  | duplicateDelete
  | snapshot (index : Nat)
  | snapshotChecksum
  | duplicateSnapshot
  | invalidation
  | duplicateInvalidation
  deriving DecidableEq

def RemoteDataMutation.valid (m : RemoteDataMutation) : Bool :=
  m.collection ≠ [] && m.id ≠ 0 && m.version ≠ 0 && m.data ≠ []

def RemoteDataDelete.valid (d : RemoteDataDelete) : Bool := d.collection ≠ [] && d.id ≠ 0

/-- `%d`. -/
def decimal (n : Int) : Bytes := n.repr.toList.map fun digit => UInt8.ofNat digit.toNat

/-- The key of a document among the changes of one commit: `%s\x00%d\x00%s\x00%d`. -/
def documentText (database : Bytes) (scope : DatabaseScope) (collection : Bytes) (id : Int64) :
    Bytes :=
  database ++ [0] ++ decimal scope.toNat ++ [0] ++ collection ++ [0] ++ decimal id.toInt

namespace RemoteCommit

/-- One round of the loop over the mutations, with the documents that were seen. -/
def checkMutation (c : RemoteCommit) (seen : List Bytes) (item : RemoteDataMutation × Nat) :
    Except RemoteFault (List Bytes) := do
  let (m, index) := item
  unless m.valid do throw (.mutation index)
  if m.id ≠ c.entityID then throw .mutationIdentity
  if m.version ≠ c.nextVersion then throw .mutationVersion
  let key := documentText m.database m.databaseScope m.collection m.id
  if key ∈ seen then throw .duplicateMutation
  return key :: seen

def checkDelete (c : RemoteCommit) (seen : List Bytes) (item : RemoteDataDelete × Nat) :
    Except RemoteFault (List Bytes) := do
  let (d, index) := item
  if !d.valid ∨ d.id ≠ c.entityID then throw (.delete index)
  let key := documentText d.database d.databaseScope d.collection d.id
  if key ∈ seen then throw .duplicateDelete
  return key :: seen

def checkSnapshot (registry : Registry) (c : RemoteCommit) (seen : List RemoteSnapshotKey)
    (item : RemoteSnapshotRecord × Nat) : Except RemoteFault (List RemoteSnapshotKey) := do
  let (s, index) := item
  if !s.key.valid registry ∨ s.key.entityID ≠ c.entityID ∨ s.key.kind ≠ c.kind ∨
      s.baseVersion ≠ c.baseVersion ∨ s.stateVersion ≠ c.nextVersion ∨
      s.markerEpoch ≠ c.markerEpoch ∨ s.routeEpoch ≠ c.routeEpoch ∨ s.schema = 0 ∨ s.data = [] then
    throw (.snapshot index)
  if s.checksum ≠ 0 ∧ registry.remoteSnapshotChecksum s.data ≠ s.checksum then throw .snapshotChecksum
  if s.key ∈ seen then throw .duplicateSnapshot
  return s.key :: seen

def checkInvalidation (registry : Registry) (c : RemoteCommit) (seen : List RemoteSnapshotKey)
    (key : RemoteSnapshotKey) : Except RemoteFault (List RemoteSnapshotKey) := do
  if !key.valid registry ∨ key.entityID ≠ c.entityID ∨ key.kind ≠ c.kind then throw .invalidation
  if key ∈ seen then throw .duplicateInvalidation
  return key :: seen

/-- `RemoteCommit.Validate`. The deletes go on with the documents of the mutations, the
invalidations with the keys of the snapshots. -/
def validate (registry : Registry) (c : RemoteCommit) : Except RemoteFault Unit := do
  if c.transactionID.isZero ∨ c.entityID = 0 ∨ c.kind = .none then throw .identity
  if c.nextVersion ≠ c.baseVersion + 1 then throw (.versions c.baseVersion c.nextVersion)
  if c.markerEpoch = 0 ∨ c.routeEpoch = 0 then throw .ownershipEpoch
  if c.mutations = [] ∧ !c.delete then throw .emptyMutations
  if c.delete ∧ (c.mutations ≠ [] ∨ c.deletes = []) then throw .deleteWithMutations
  if !c.delete ∧ c.deletes ≠ [] then throw .updateWithDeletes
  let documents ← c.mutations.zipIdx.foldlM c.checkMutation []
  let _ ← c.deletes.zipIdx.foldlM c.checkDelete documents
  let keys ← c.snapshots.zipIdx.foldlM (c.checkSnapshot registry) []
  let _ ← c.invalidations.foldlM (c.checkInvalidation registry) keys
  return

end RemoteCommit

end Roost.Entity
