import Mathlib.Data.List.Sort
import RoostCore.Dataengine.Record
import RoostCore.Go.Endian
import RoostCore.Go.Writer

/-! The payload of the log: one commit record in format 7 (`nestwal/codec.go`). The
writers and the readers are two sequences of fields, each in its own order, as the source
has them. -/
namespace Roost.Nestwal
open Go Entity Dataengine Reader

def codecVersion : UInt16 := 7

def maxEntryCount : Nat := 2 ^ 20

def maxStringBytes : Nat := 2 ^ 20

inductive Fault
  | emptyRecord
  | durability
  | entries
  | record (fault : RecordFault)
  | version (codec : UInt16)
  | eof
  | unexpectedEOF
  | stringLimit
  | bytesLimit
  | unsetPaths
  | effectHeaders
  | countLimit
  | trailing (left : Nat)
  | remoteMarker
  | remote (fault : RemoteFault)
  | remoteMutation
  | remoteMutations
  | remoteDelete
  | remoteDeletes
  | remoteSnapshots
  | remoteInvalidations
  deriving DecidableEq

abbrev Piece := Except Fault Bytes

abbrev Read := Reader Fault

def validateRecord (host : Host) (record : CommitRecord) : Except Fault Unit := do
  if record.empty then throw .emptyRecord
  if record.durability > .pipelined then throw .durability
  if record.mutations.length > maxEntryCount ∨ record.effects.length > maxEntryCount ∨
      record.receipts.length > maxEntryCount then
    throw .entries
  (validateCommitRecord host record).mapError .record

section Writers

def appendByte (value : UInt8) : Piece := .ok [value]

def appendUint16 (value : UInt16) : Piece := .ok (bigEndian 2 value.toNat)

def appendUint32 (value : UInt32) : Piece := .ok (bigEndian 4 value.toNat)

def appendUint64 (value : UInt64) : Piece := .ok (bigEndian 8 value.toNat)

/-- A signed number goes out as the unsigned one of its two's complement. -/
def appendInt64 (value : Int64) : Piece := appendUint64 value.toUInt64

/-- `uint32(len(…))`. -/
def appendLen (length : Nat) : Piece := .ok (bigEndian 4 length)

def boolByte (value : Bool) : UInt8 := if value then 1 else 0

def appendString (value : Bytes) : Piece :=
  if value.length > maxStringBytes then .error .stringLimit
  else .ok (bigEndian 4 value.length ++ value)

def appendBytes (value : Bytes) : Piece :=
  if value.length > 2 ^ 32 - 1 then .error .bytesLimit
  else .ok (bigEndian 4 value.length ++ value)

def appendKind (kind : EntityKind) : Piece := appendUint16 kind.toUInt16

def appendRemoteSnapshotKey (key : RemoteSnapshotKey) : Piece := joined [
  appendUint32 key.tenant,
  appendInt64 key.entityID,
  appendKind key.kind,
  appendUint32 key.scope,
  appendUint32 key.policy]

def appendRemoteMutation (m : RemoteDataMutation) : Piece := joined [
  checked (m.valid = true) .remoteMutation,
  appendString m.database,
  appendByte m.databaseScope,
  appendString m.collection,
  appendInt64 m.id,
  appendUint64 m.version,
  appendUint64 m.mask,
  appendBytes m.data]

def appendRemoteDelete (d : RemoteDataDelete) : Piece := joined [
  checked (d.valid = true) .remoteDelete,
  appendString d.database,
  appendByte d.databaseScope,
  appendString d.collection,
  appendInt64 d.id]

def appendRemoteSnapshot (s : RemoteSnapshotRecord) : Piece := joined [
  appendRemoteSnapshotKey s.key,
  appendUint64 s.baseVersion,
  appendUint64 s.stateVersion,
  appendUint64 s.markerEpoch,
  appendUint64 s.routeEpoch,
  appendUint32 s.schema,
  appendUint16 s.codec,
  appendByte (boolByte s.full),
  appendUint64 s.checksum,
  appendBytes s.data]

/-- A list with its length in front. -/
def appendList {α : Type} (append : α → Piece) (items : List α) : Piece :=
  joined [appendLen items.length, joined (items.map append)]

def appendRemoteCommit (host : Host) : Option RemoteCommit → Piece
  | none => appendByte 0
  | some commit => joined [
      validated ((commit.validate host.toRegistry).mapError .remote),
      appendByte 1,
      .ok commit.transactionID.1,
      appendInt64 commit.entityID,
      appendKind commit.kind,
      appendByte (boolByte commit.delete),
      appendUint64 commit.baseVersion,
      appendUint64 commit.nextVersion,
      appendUint64 commit.markerEpoch,
      appendUint64 commit.lockFence,
      appendUint64 commit.routeEpoch,
      appendUint32 commit.schema,
      appendUint16 commit.codec,
      appendUint64 commit.checksum,
      checked (commit.mutations.length ≤ maxEntryCount) .remoteMutations,
      appendList appendRemoteMutation commit.mutations,
      checked (commit.deletes.length ≤ maxEntryCount) .remoteDeletes,
      appendList appendRemoteDelete commit.deletes,
      checked (commit.snapshots.length ≤ maxEntryCount) .remoteSnapshots,
      appendList appendRemoteSnapshot commit.snapshots,
      checked (commit.invalidations.length ≤ maxEntryCount) .remoteInvalidations,
      appendList appendRemoteSnapshotKey commit.invalidations]

def appendMutation (host : Host) (m : Mutation) : Piece := joined [
  appendInt64 m.key.id,
  appendUint64 m.expectedVersion,
  appendUint64 m.nextVersion,
  appendUint64 m.mask,
  appendUint32 m.schema,
  appendByte m.kind,
  appendByte m.key.scope,
  appendString m.key.database,
  appendString m.key.resource,
  appendString m.codec,
  appendBytes m.data,
  appendBytes m.patch.setBSON,
  checked (m.patch.unset.length ≤ maxEntryCount) .unsetPaths,
  appendList appendString m.patch.unset,
  appendRemoteCommit host m.remote]

def appendReceipt (receipt : Receipt) : Piece := joined [
  appendString receipt.nameSpace,
  appendString receipt.id,
  appendBytes receipt.digest,
  appendBytes receipt.payload,
  appendInt64 receipt.expiresAt]

/-- The keys of the headers in the order of `slices.Sort`. -/
def sortedKeys (headers : Table Bytes Bytes) : List Bytes := headers.keys.insertionSort (· ≤ ·)

def appendHeader (headers : Table Bytes Bytes) (key : Bytes) : Piece := joined [
  appendString key,
  appendString ((headers.get key).getD [])]

def appendEffect (e : Effect) : Piece := joined [
  appendString e.id,
  appendString e.topic,
  appendString e.key,
  appendBytes e.payload,
  appendInt64 e.availableAt,
  checked (e.headers.pairs.length ≤ maxEntryCount) .effectHeaders,
  appendList (appendHeader e.headers) (sortedKeys e.headers)]

def appendRecordHeader (record : CommitRecord) : Piece := joined [
  appendUint16 codecVersion,
  .ok record.id.1,
  appendInt64 record.createdAt,
  appendByte record.durability,
  appendString record.handler,
  appendString record.requestID]

def encodeRecord (host : Host) (record : CommitRecord) : Except Fault Bytes := joined [
  validated (validateRecord host record),
  appendRecordHeader record,
  appendList (appendMutation host) record.mutations,
  appendList appendEffect record.effects,
  appendList appendReceipt record.receipts]

end Writers

section Readers

/-- `io.ReadFull`: the end of the input is told from an input that is too short. -/
def readFull {α : Type} (r : Fault → Read α) : Read α := do
  let left ← remaining
  refuse (left = 0) .eof
  r .unexpectedEOF

def readByte : Read UInt8 := byte .eof

def readUint16 : Read UInt16 := do
  let value ← readFull (big 2)
  return .ofNat value

def readUint32 : Read UInt32 := do
  let value ← readFull (big 4)
  return .ofNat value

def readUint64 : Read UInt64 := do
  let value ← readFull (big 8)
  return .ofNat value

def readInt64 : Read Int64 := do
  let value ← readUint64
  return value.toInt64

def readTransactionID : Read TransactionID := readFull (exactly 16)

def readBool : Read Bool := do
  let value ← readByte
  return value == 1

def readKind : Read EntityKind := do
  let kind ← readUint16
  return kind.toUInt8

def readBytes : Read Bytes := do
  let size ← readUint32
  let left ← remaining
  refuse (size.toNat > left) .unexpectedEOF
  take size.toNat .unexpectedEOF

def readString : Read Bytes := do
  let raw ← readBytes
  refuse (raw.length > maxStringBytes) .stringLimit
  return raw

def readCount : Read Nat := do
  let count ← readUint32
  refuse (count.toNat > maxEntryCount) .countLimit
  return count.toNat

def readList {α : Type} (r : Read α) : Read (List α) := do
  let count ← readCount
  r.times count

def readRemoteSnapshotKey : Read RemoteSnapshotKey := do
  let tenant ← readUint32
  let entityID ← readInt64
  let kind ← readKind
  let scope ← readUint32
  let policy ← readUint32
  return { tenant, entityID, kind, scope, policy }

def readRemoteMutation : Read RemoteDataMutation := do
  let database ← readString
  let databaseScope ← readByte
  let collection ← readString
  let id ← readInt64
  let version ← readUint64
  let mask ← readUint64
  let data ← readBytes
  return { database, databaseScope, collection, id, version, mask, data }

def readRemoteDelete : Read RemoteDataDelete := do
  let database ← readString
  let databaseScope ← readByte
  let collection ← readString
  let id ← readInt64
  return { database, databaseScope, collection, id }

def readRemoteSnapshot : Read RemoteSnapshotRecord := do
  let key ← readRemoteSnapshotKey
  let baseVersion ← readUint64
  let stateVersion ← readUint64
  let markerEpoch ← readUint64
  let routeEpoch ← readUint64
  let schema ← readUint32
  let codec ← readUint16
  let full ← readBool
  let checksum ← readUint64
  let data ← readBytes
  return { key, baseVersion, stateVersion, markerEpoch, routeEpoch, schema, codec, full, data, checksum }

/-- The fields of `readRemoteCommit` after the marker. -/
def readRemoteFields : Read RemoteCommit := do
  let transactionID ← readTransactionID
  let entityID ← readInt64
  let kind ← readKind
  let delete ← readBool
  let baseVersion ← readUint64
  let nextVersion ← readUint64
  let markerEpoch ← readUint64
  let lockFence ← readUint64
  let routeEpoch ← readUint64
  let schema ← readUint32
  let codec ← readUint16
  let checksum ← readUint64
  let mutations ← readList readRemoteMutation
  let deletes ← readList readRemoteDelete
  let snapshots ← readList readRemoteSnapshot
  let invalidations ← readList readRemoteSnapshotKey
  return {
    transactionID, entityID, kind, delete, baseVersion, nextVersion, markerEpoch, lockFence,
    routeEpoch, schema, codec, mutations, deletes, snapshots, invalidations, checksum }

def readRemoteCommit (host : Host) : Read (Option RemoteCommit) := do
  let present ← readByte
  if present = 0 then return none
  else
    refuse (present ≠ 1) .remoteMarker
    let commit ← readRemoteFields
    Reader.ofExcept ((commit.validate host.toRegistry).mapError .remote)
    return some commit

def readMutation (host : Host) : Read Mutation := do
  let id ← readInt64
  let expectedVersion ← readUint64
  let nextVersion ← readUint64
  let mask ← readUint64
  let schema ← readUint32
  let kind ← readByte
  let scope ← readByte
  let database ← readString
  let resource ← readString
  let codec ← readString
  let data ← readBytes
  let setBSON ← readBytes
  let unset ← readList readString
  let remote ← readRemoteCommit host
  return {
    key := { database, scope, resource, id }
    kind, expectedVersion, nextVersion, mask, schema, codec, data
    patch := { setBSON, unset }
    remote }

def readReceipt : Read Receipt := do
  let nameSpace ← readString
  let id ← readString
  let digest ← readBytes
  let payload ← readBytes
  let expiresAt ← readInt64
  return { nameSpace, id, digest, payload, expiresAt }

def readHeader : Read (Bytes × Bytes) := do
  let key ← readString
  let value ← readString
  return (key, value)

/-- The map that takes the pairs one after the other. -/
def setAll (pairs : List (Bytes × Bytes)) : Table Bytes Bytes :=
  pairs.foldl (fun headers pair => headers.set pair.1 pair.2) ∅

/-- The delivery is not written; it keeps its zero value. -/
def readEffect : Read Effect := do
  let id ← readString
  let topic ← readString
  let key ← readString
  let payload ← readBytes
  let availableAt ← readInt64
  let headers ← readList readHeader
  return { id, topic, key, payload, headers := setAll headers, availableAt, delivery := 0 }

/-- `decodeRecordHeader` and the lists after it. -/
def readRecord (host : Host) : Read CommitRecord := do
  let id ← readTransactionID
  let createdAt ← readInt64
  let durability ← readByte
  let handler ← readString
  let requestID ← readString
  let mutations ← readList (readMutation host)
  let effects ← readList readEffect
  let receipts ← readList readReceipt
  return { id, handler, requestID, createdAt, durability, mutations, effects, receipts }

def decodeRecordBody (host : Host) : Read CommitRecord := do
  let record ← readRecord host
  let left ← remaining
  refuse (left ≠ 0) (.trailing left)
  Reader.ofExcept ((validateCommitRecord host record).mapError .record)
  return record

def decodeRecord (host : Host) (raw : Bytes) : Except Fault CommitRecord :=
  let read : Read CommitRecord := do
    let version ← readUint16
    refuse (version ≠ codecVersion) (.version version)
    decodeRecordBody host
  (read raw).map Prod.fst

end Readers

end Roost.Nestwal
