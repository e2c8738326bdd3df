import Mathlib.Data.List.Induction
import RoostCore.Nestwal.Codec

/-! Every record that is encoded is decoded again, and the headers of an effect go out in
one order whatever the order of the map is. -/
namespace Roost.Nestwal
open Go Entity Dataengine
open List hiding all below count head keys length tail

section Fields

theorem reads_full (some : 0 < text.length) (reads : Reads (r .unexpectedEOF) text value) :
    Reads (readFull r) text value := by
  refine .remaining fun left enough => .refuse ?_ reads
  omega

theorem reads_uint16 (value : UInt16) : Reads readUint16 (bigEndian 2 value.toNat) value := by
  have number : Reads (readFull (Reader.big 2)) (bigEndian 2 value.toNat) value.toNat :=
    reads_full (by simp) (.big (Reads.uint16_fits value))
  have read := number.result (f := UInt16.ofNat)
  rwa [UInt16.ofNat_toNat] at read

theorem reads_uint32 (value : UInt32) : Reads readUint32 (bigEndian 4 value.toNat) value := by
  have number : Reads (readFull (Reader.big 4)) (bigEndian 4 value.toNat) value.toNat :=
    reads_full (by simp) (.big (Reads.uint32_fits value))
  have read := number.result (f := UInt32.ofNat)
  rwa [UInt32.ofNat_toNat] at read

theorem reads_uint64 (value : UInt64) : Reads readUint64 (bigEndian 8 value.toNat) value := by
  have number : Reads (readFull (Reader.big 8)) (bigEndian 8 value.toNat) value.toNat :=
    reads_full (by simp) (.big (Reads.uint64_fits value))
  have read := number.result (f := UInt64.ofNat)
  rwa [UInt64.ofNat_toNat] at read

theorem writes_byte (value : UInt8) : Writes (appendByte value) readByte value :=
  .plain (.byte value)

theorem writes_uint16 (value : UInt16) : Writes (appendUint16 value) readUint16 value :=
  .plain (reads_uint16 value)

theorem writes_uint32 (value : UInt32) : Writes (appendUint32 value) readUint32 value :=
  .plain (reads_uint32 value)

theorem writes_uint64 (value : UInt64) : Writes (appendUint64 value) readUint64 value :=
  .plain (reads_uint64 value)

theorem writes_int64 (value : Int64) : Writes (appendInt64 value) readInt64 value := by
  have read := (writes_uint64 value.toUInt64).result UInt64.toInt64
  rwa [Int64.toInt64_toUInt64] at read

theorem writes_kind (kind : EntityKind) : Writes (appendKind kind) readKind kind := by
  have read := (writes_uint16 kind.toUInt16).result UInt16.toUInt8
  rwa [UInt8.toUInt8_toUInt16] at read

theorem writes_bool (value : Bool) : Writes (appendByte (boolByte value)) readBool value := by
  have read := (writes_byte (boolByte value)).result (· == 1)
  cases value <;> exact read

theorem writes_transactionID (id : TransactionID) :
    Writes (.ok id.1 : Piece) readTransactionID id :=
  .plain (reads_full (by rw [id.2]; decide) (.exactly id))

/-- A length that fits into its four bytes, and the bytes. -/
theorem reads_bytes (fits : value.length < 2 ^ 32) :
    Reads readBytes (bigEndian 4 value.length ++ value) value := by
  have length : (UInt32.ofNat value.length).toNat = value.length := UInt32.toNat_ofNat_of_lt' fits
  have size := reads_uint32 (UInt32.ofNat value.length)
  rw [length] at size
  refine size.bind (.remaining fun left enough => .refuse ?_ (.take length.symm))
  omega

theorem writes_bytes (value : Bytes) : Writes (appendBytes value) readBytes value := by
  intro text written
  rw [appendBytes] at written
  split at written
  · cases written
  · rw [← Except.ok.inj written]
    exact reads_bytes (by omega)

theorem writes_string (value : Bytes) : Writes (appendString value) readString value := by
  intro text written
  obtain ⟨fits, written⟩ := guard_ok written
  rw [← Except.ok.inj written]
  have small : value.length < 2 ^ 32 := by
    rw [maxStringBytes] at fits
    omega
  exact (reads_bytes small).last (.refuse fits (.pure value))

theorem reads_count (fits : count ≤ maxEntryCount) : Reads readCount (bigEndian 4 count) count := by
  have small : count < 2 ^ 32 := by
    rw [maxEntryCount] at fits
    omega
  have same : (UInt32.ofNat count).toNat = count := UInt32.toNat_ofNat_of_lt' small
  have number := reads_uint32 (UInt32.ofNat count)
  rw [same] at number
  refine number.last (.refuse (by omega) ?_)
  rw [same]
  exact .pure count

theorem writes_list (fits : items.length ≤ maxEntryCount)
    (one : ∀ item, Writes (append item) r (image item)) :
    Writes (appendList append items) (readList r) (items.map image) := by
  have count : Writes (appendLen items.length) readCount items.length := .plain (reads_count fits)
  refine count.cons ?_
  have all : Writes (joined (items.map append)) (r.times items.length) (items.map image) :=
    .each fun item _ => one item
  intro text written
  obtain ⟨first, last, wrote, rested, rfl⟩ := joined_cons_ok written
  cases rested
  rw [append_nil]
  exact all first wrote

theorem writes_items (fits : items.length ≤ maxEntryCount)
    (one : ∀ item, Writes (append item) r item) :
    Writes (appendList append items) (readList r) items := by
  have read : Writes (appendList append items) (readList r) (items.map id) := writes_list fits one
  rwa [map_id] at read

end Fields

section Remote

theorem writes_remoteSnapshotKey (key : RemoteSnapshotKey) :
    Writes (appendRemoteSnapshotKey key) readRemoteSnapshotKey key :=
  (writes_uint32 _).cons <| (writes_int64 _).cons <| (writes_kind _).cons <|
    (writes_uint32 _).cons <| (writes_uint32 _).cons <| .nil _

theorem writes_remoteMutation (m : RemoteDataMutation) :
    Writes (appendRemoteMutation m) readRemoteMutation m :=
  .checked fun _ => (writes_string _).cons <| (writes_byte _).cons <| (writes_string _).cons <|
    (writes_int64 _).cons <| (writes_uint64 _).cons <| (writes_uint64 _).cons <|
    (writes_bytes _).cons <| .nil _

theorem writes_remoteDelete (d : RemoteDataDelete) :
    Writes (appendRemoteDelete d) readRemoteDelete d :=
  .checked fun _ => (writes_string _).cons <| (writes_byte _).cons <| (writes_string _).cons <|
    (writes_int64 _).cons <| .nil _

theorem writes_remoteSnapshot (s : RemoteSnapshotRecord) :
    Writes (appendRemoteSnapshot s) readRemoteSnapshot s :=
  (writes_remoteSnapshotKey _).cons <| (writes_uint64 _).cons <| (writes_uint64 _).cons <|
    (writes_uint64 _).cons <| (writes_uint64 _).cons <| (writes_uint32 _).cons <|
    (writes_uint16 _).cons <| (writes_bool _).cons <| (writes_uint64 _).cons <|
    (writes_bytes _).cons <| .nil _

theorem writes_remoteCommit (host : Host) (remote : Option RemoteCommit) :
    Writes (appendRemoteCommit host remote) (readRemoteCommit host) remote := by
  cases remote with
  | none => exact .plain fun rest => rfl
  | some commit =>
    -- The reader validates what the writer has validated.
    refine .validated fun valid => (writes_byte 1).cons ?_
    refine .refuse (by decide) (.last (x := commit) ?_ (.ofExcept valid (.pure (some commit))))
    exact (writes_transactionID _).cons <| (writes_int64 _).cons <| (writes_kind _).cons <|
      (writes_bool _).cons <| (writes_uint64 _).cons <| (writes_uint64 _).cons <|
      (writes_uint64 _).cons <| (writes_uint64 _).cons <| (writes_uint64 _).cons <|
      (writes_uint32 _).cons <| (writes_uint16 _).cons <| (writes_uint64 _).cons <|
      .checked fun mutations => (writes_items mutations writes_remoteMutation).cons <|
      .checked fun deletes => (writes_items deletes writes_remoteDelete).cons <|
      .checked fun snapshots => (writes_items snapshots writes_remoteSnapshot).cons <|
      .checked fun invalidations =>
        (writes_items invalidations writes_remoteSnapshotKey).cons <| .nil _

end Remote

section Record

theorem writes_mutation (host : Host) (m : Mutation) :
    Writes (appendMutation host m) (readMutation host) m :=
  (writes_int64 _).cons <| (writes_uint64 _).cons <| (writes_uint64 _).cons <|
    (writes_uint64 _).cons <| (writes_uint32 _).cons <| (writes_byte _).cons <|
    (writes_byte _).cons <| (writes_string _).cons <| (writes_string _).cons <|
    (writes_string _).cons <| (writes_bytes _).cons <| (writes_bytes _).cons <|
    .checked fun unset => (writes_items unset writes_string).cons <|
    (writes_remoteCommit host _).cons <| .nil _

theorem writes_receipt (receipt : Receipt) : Writes (appendReceipt receipt) readReceipt receipt :=
  (writes_string _).cons <| (writes_string _).cons <| (writes_bytes _).cons <|
    (writes_bytes _).cons <| (writes_int64 _).cons <| .nil _

def headerOf (headers : Table Bytes Bytes) (key : Bytes) : Bytes × Bytes :=
  (key, (headers.get key).getD [])

theorem writes_header (headers : Table Bytes Bytes) (key : Bytes) :
    Writes (appendHeader headers key) readHeader (headerOf headers key) :=
  (writes_string _).cons <| (writes_string _).cons <| .nil _

/-- The effect as it is read: the map is made again and the delivery is the zero value. -/
def reread (e : Effect) : Effect :=
  { e with headers := setAll ((sortedKeys e.headers).map (headerOf e.headers)), delivery := 0 }

theorem length_sortedKeys (headers : Table Bytes Bytes) :
    (sortedKeys headers).length = headers.pairs.length := by
  rw [sortedKeys, length_insertionSort, Table.length_pairs]

theorem writes_effect (e : Effect) : Writes (appendEffect e) readEffect (reread e) :=
  (writes_string _).cons <| (writes_string _).cons <| (writes_string _).cons <|
    (writes_bytes _).cons <| (writes_int64 _).cons <| .checked fun headers =>
    (writes_list (by rwa [length_sortedKeys]) (writes_header e.headers)).cons <| .nil _

end Record

section Headers

theorem get_setAll (keys : List Bytes) (value : Bytes → Bytes) (key : Bytes) :
    (setAll (keys.map fun key => (key, value key))).get key =
      if key ∈ keys then some (value key) else none := by
  induction keys using reverseRecOn with
  | nil => simp [setAll]
  | append_singleton keys last ih =>
    rw [setAll] at ih ⊢
    rw [map_append, foldl_append, map_singleton, foldl_cons, foldl_nil,
      Table.get_set, ih]
    by_cases same : key = last <;> simp [same]

/-- The map that is read has the entries of the map that was written. -/
theorem get_reread (e : Effect) (key : Bytes) : (reread e).headers.get key = e.headers.get key := by
  have member : key ∈ sortedKeys e.headers ↔ key ∈ e.headers.keys :=
    mem_insertionSort (· ≤ ·)
  have looked := get_setAll (sortedKeys e.headers) (fun key => (e.headers.get key).getD []) key
  rw [reread]
  refine looked.trans ?_
  simp only [member, Table.mem_keys_iff]
  cases e.headers.get key <;> simp

theorem sortedKeys_congr (same : ∀ key, a.get key = b.get key) : sortedKeys a = sortedKeys b := by
  have keys : a.keys.Perm b.keys := by
    rw [perm_ext_iff_of_nodup a.keys_nodup b.keys_nodup]
    intro key
    rw [Table.mem_keys_iff, Table.mem_keys_iff, same]
  have sorted (table : Table Bytes Bytes) : (sortedKeys table).Pairwise (· ≤ ·) :=
    pairwise_insertionSort (· ≤ ·) table.keys
  have permuted : (sortedKeys a).Perm (sortedKeys b) :=
    (perm_insertionSort (· ≤ ·) a.keys).trans
      (keys.trans (perm_insertionSort (· ≤ ·) b.keys).symm)
  exact permuted.eq_of_pairwise (fun _ _ _ _ below above => List.le_antisymm below above)
    (sorted a) (sorted b)

end Headers

section Same

theorem appendEffect_same (same : a.Same b) : appendEffect a = appendEffect b := by
  have keys := sortedKeys_congr same.headers
  have headers : appendHeader a.headers = appendHeader b.headers := by
    funext key
    rw [appendHeader, appendHeader, same.headers]
  have count : a.headers.pairs.length = b.headers.pairs.length := by
    rw [← length_sortedKeys, ← length_sortedKeys, keys]
  simp only [appendEffect, same.id, same.topic, same.key, same.payload, same.availableAt, keys,
    headers, count]

theorem map_appendEffect_same (same : List.Forall₂ Effect.Same as bs) :
    as.map appendEffect = bs.map appendEffect := by
  induction same with
  | nil => rfl
  | cons head _ ih => rw [map_cons, map_cons, appendEffect_same head, ih]

theorem validateEffect_same (same : a.Same b) (index : Nat) :
    validateEffect (a, index) = validateEffect (b, index) := by
  simp [validateEffect, same.id, same.topic, same.delivery]

theorem validateEffects_same (same : List.Forall₂ Effect.Same as bs) (index : Nat) :
    (as.zipIdx index).forM validateEffect = (bs.zipIdx index).forM validateEffect := by
  induction same generalizing index with
  | nil => rfl
  | cons head _ ih =>
    rw [List.zipIdx_cons, List.zipIdx_cons, List.forM, List.forM,
      validateEffect_same head, ih]

theorem validateCommitRecord_same (host : Host) (same : a.Same b) :
    validateCommitRecord host a = validateCommitRecord host b := by
  simp only [validateCommitRecord, same.id, same.mutations, validateEffects_same same.effects 0,
    same.receipts]

theorem encodeRecord_same (host : Host) (same : a.Same b) :
    encodeRecord host a = encodeRecord host b := by
  have length := same.effects.length_eq
  have none : a.effects.isEmpty = b.effects.isEmpty := by
    rw [Bool.eq_iff_iff, isEmpty_iff_length_eq_zero, isEmpty_iff_length_eq_zero, length]
  have valid : validateRecord host a = validateRecord host b := by
    simp only [validateRecord, CommitRecord.empty, none, length, same.durability, same.mutations,
      same.receipts, validateCommitRecord_same host same]
  have header : appendRecordHeader a = appendRecordHeader b := by
    simp only [appendRecordHeader, same.id, same.createdAt, same.durability, same.handler,
      same.requestID]
  have effects : appendList appendEffect a.effects = appendList appendEffect b.effects := by
    rw [appendList, appendList, length, map_appendEffect_same same.effects]
  rw [encodeRecord, encodeRecord, valid, header, same.mutations, effects, same.receipts]

end Same

section Valid

theorem forM_ok {check : α → Except ε Unit} {items : List α} (passed : items.forM check = .ok ()) :
    ∀ item ∈ items, check item = .ok () := by
  induction items with
  | nil => exact fun item absent => absurd absent not_mem_nil
  | cons head tail ih =>
    rw [List.forM] at passed
    cases first : check head with
    | error err =>
      rw [first] at passed
      cases passed
    | ok =>
      rw [first] at passed
      rintro item (_ | ⟨_, member⟩)
      · exact first
      · exact ih passed item member

theorem validateCommitRecord_effects (valid : validateCommitRecord host record = .ok ()) :
    record.effects.zipIdx.forM validateEffect = .ok () := by
  obtain ⟨-, valid⟩ := guard_ok valid
  obtain ⟨_, -, rest⟩ := bind_ok valid
  obtain ⟨⟨⟩, effects, -⟩ := bind_ok rest
  exact effects

theorem delivery_reliable {host : Host} (valid : validateCommitRecord host record = .ok ()) :
    ∀ e ∈ record.effects, e.delivery = .reliable := by
  intro e member
  obtain ⟨index, bound, rfl⟩ := mem_iff_getElem.mp member
  have passed := forM_ok (validateCommitRecord_effects valid) (record.effects[index], index) (by
    rw [mem_zipIdx_iff_getElem?]
    exact getElem?_eq_getElem bound)
  rw [validateEffect] at passed
  split_ifs at passed with _ other
  exact not_not.mp other

theorem reread_same (reliable : e.delivery = .reliable) : (reread e).Same e where
  id := rfl
  topic := rfl
  key := rfl
  payload := rfl
  headers := get_reread e
  availableAt := rfl
  delivery := reliable.symm

end Valid

def rereadRecord (record : CommitRecord) : CommitRecord :=
  { record with effects := record.effects.map reread }

theorem rereadRecord_same (valid : validateCommitRecord host record = .ok ()) :
    (rereadRecord record).Same record where
  id := rfl
  handler := rfl
  requestID := rfl
  createdAt := rfl
  durability := rfl
  mutations := rfl
  effects := by
    rw [rereadRecord, forall₂_map_left_iff, forall₂_same]
    exact fun e member => reread_same (delivery_reliable valid e member)
  receipts := rfl

/-- What a record has passed when it is encoded. -/
structure Encodable (host : Host) (record : CommitRecord) : Prop where
  mutations : record.mutations.length ≤ maxEntryCount
  effects : record.effects.length ≤ maxEntryCount
  receipts : record.receipts.length ≤ maxEntryCount
  valid : validateCommitRecord host record = .ok ()

theorem validateRecord_ok (passed : validateRecord host record = .ok ()) :
    Encodable host record := by
  obtain ⟨-, passed⟩ := guard_ok passed
  obtain ⟨-, passed⟩ := guard_ok passed
  obtain ⟨counts, passed⟩ := guard_ok passed
  push Not at counts
  exact ⟨counts.1, counts.2.1, counts.2.2, mapError_ok passed⟩

/-- The version comes first, and the record is read from what follows it. -/
theorem encodeRecord_ok (encoded : encodeRecord host record = .ok bytes) :
    Encodable host record ∧ ∃ text, bytes = bigEndian 2 codecVersion.toNat ++ text ∧
      Reads (readRecord host) text (rereadRecord record) := by
  obtain ⟨_, body, passed, pieces, rfl⟩ := joined_cons_ok encoded
  obtain ⟨⟨⟩, valid, nothing⟩ := map_ok passed
  have limits := validateRecord_ok valid
  rw [appendRecordHeader, joined_joined] at pieces
  obtain ⟨_, text, version, fields, rfl⟩ := joined_cons_ok pieces
  refine ⟨limits, text, ?_, ?_⟩
  · rw [nothing, ← Except.ok.inj version, nil_append]
  have written : Writes (joined _) (readRecord host) (rereadRecord record) :=
    (writes_transactionID record.id).cons <| (writes_int64 record.createdAt).cons <|
    (writes_byte record.durability).cons <| (writes_string record.handler).cons <|
    (writes_string record.requestID).cons <|
    (writes_items limits.mutations (writes_mutation host)).cons <|
    (writes_list limits.effects writes_effect).cons <|
    (writes_items limits.receipts writes_receipt).cons <| .nil _
  exact written text fields

theorem decodeRecord_eq (read : Reads (readRecord host) text record)
    (valid : validateCommitRecord host record = .ok ()) :
    decodeRecord host (bigEndian 2 codecVersion.toNat ++ text) = .ok record := by
  have passed : (validateCommitRecord host record).mapError Fault.record = .ok () := by
    rw [valid]
    rfl
  have body : decodeRecordBody host text = .ok (record, []) :=
    (Reader.bind_eq read.whole).trans <| (Reader.bind_eq rfl).trans <|
      (Reader.refuse_bind (by simp)).trans (Reader.ofExcept_bind passed)
  have versioned : (do
      let version ← readUint16
      Reader.refuse (version ≠ codecVersion) (Fault.version version)
      decodeRecordBody host : Read CommitRecord) (bigEndian 2 codecVersion.toNat ++ text) =
        .ok (record, []) :=
    (Reader.bind_eq (reads_uint16 codecVersion text)).trans <|
      (Reader.refuse_bind (by simp)).trans body
  rw [decodeRecord, versioned]
  rfl

/-- A record that is encoded is decoded as the same record, and records that differ in the
order of their maps alone have one encoding. -/
theorem record_round_trip (host : Host) (record : CommitRecord) :
    (∀ bytes, encodeRecord host record = .ok bytes →
      ∃ decoded, decodeRecord host bytes = .ok decoded ∧ decoded.Same record) ∧
    (∀ other : CommitRecord, other.Same record →
      encodeRecord host other = encodeRecord host record) := by
  constructor
  · intro bytes encoded
    obtain ⟨limits, text, rfl, read⟩ := encodeRecord_ok encoded
    have same := rereadRecord_same limits.valid
    have valid := (validateCommitRecord_same host same).trans limits.valid
    exact ⟨rereadRecord record, decodeRecord_eq read valid, same⟩
  · intro other same
    exact encodeRecord_same host same

namespace Sample

/-- Kinds are not remote, a checksum is the length, and every document has one path. -/
def host : Host where
  isEntityKindRemoteCapable _ := false
  remoteSnapshotChecksum data := .ofNat data.length
  bsonKeys _ := some [[97, dot, 98]]

def transaction : TransactionID := ⟨replicate 16 255, by decide⟩

def snapshotKey (scope : UInt32) : RemoteSnapshotKey :=
  { tenant := 0xFFFFFFFF, entityID := -4, kind := 255, scope, policy := 0 }

def commit : RemoteCommit where
  transactionID := transaction
  entityID := -4
  kind := 255
  delete := false
  baseVersion := 0xFFFFFFFFFFFFFFFE
  nextVersion := 0xFFFFFFFFFFFFFFFF
  markerEpoch := 1
  lockFence := 0
  routeEpoch := 1
  schema := 1
  codec := 0xFFFF
  mutations := [{
    database := [], databaseScope := 255, collection := [99], id := -4
    version := 0xFFFFFFFFFFFFFFFF, mask := 0, data := [1] }]
  deletes := []
  snapshots := [{
    key := snapshotKey 0, baseVersion := 0xFFFFFFFFFFFFFFFE, stateVersion := 0xFFFFFFFFFFFFFFFF
    markerEpoch := 1, routeEpoch := 1, schema := 1, codec := 0, full := true
    data := [1, 2], checksum := 2 }]
  invalidations := [snapshotKey 1]
  checksum := 0

def remote : Mutation where
  key := { database := [], scope := 0, resource := [114], id := -4 }
  kind := .put
  expectedVersion := 0xFFFFFFFFFFFFFFFE
  nextVersion := 0xFFFFFFFFFFFFFFFF
  mask := 0
  schema := 0
  codec := []
  data := []
  patch := { setBSON := [], unset := [] }
  remote := some commit

def patched : Mutation where
  key := { database := [100], scope := 1, resource := [114], id := -9223372036854775808 }
  kind := .patch
  expectedVersion := 1
  nextVersion := 2
  mask := 0xFFFFFFFFFFFFFFFF
  schema := 0xFFFFFFFF
  codec := [98]
  data := []
  patch := { setBSON := [5], unset := [[99], [97, 98]] }
  remote := none

def effect (headers : Table Bytes Bytes) : Effect where
  id := [101]
  topic := [116]
  key := []
  payload := [0, 255]
  headers
  availableAt := -1
  delivery := .reliable

def record (headers : Table Bytes Bytes) : CommitRecord where
  id := transaction
  handler := [104]
  requestID := []
  createdAt := -9223372036854775808
  durability := .pipelined
  mutations := [remote, patched]
  effects := [effect headers]
  receipts := [{ nameSpace := [110], id := [105], digest := [], payload := [7], expiresAt := 9223372036854775807 }]

def headers : Table Bytes Bytes := (Table.set ∅ [98] [1]).set [97] [2]

def turned : Table Bytes Bytes := (Table.set ∅ [97] [2]).set [98] [1]

end Sample

open Sample

/-- A record with every part of the format, whose headers are put into the map in either
order. -/
theorem record_round_trip_sample :
    ∃ bytes decoded, encodeRecord host (record headers) = .ok bytes ∧
      decodeRecord host bytes = .ok decoded ∧
      decoded.Same (record headers) ∧
      encodeRecord host (record turned) = .ok bytes := by
  have general := record_round_trip host (record headers)
  have encodes : (encodeRecord host (record headers)).toOption.isSome = true := by
    decide +kernel
  cases encoded : encodeRecord host (record headers) with
  | error fault =>
    rw [encoded] at encodes
    cases encodes
  | ok bytes =>
    obtain ⟨decoded, decodes, same⟩ := general.1 bytes encoded
    have order (key : Bytes) : turned.get key = headers.get key := by
      simp only [turned, headers, Table.get_set, Table.get_empty]
      split_ifs with first second <;> first | rfl | (subst first; cases second)
    have turned : (record turned).Same (record headers) :=
      ⟨rfl, rfl, rfl, rfl, rfl, rfl, .cons ⟨rfl, rfl, rfl, rfl, order, rfl, rfl⟩ .nil, rfl⟩
    exact ⟨bytes, decoded, rfl, decodes, same, (general.2 _ turned).trans encoded⟩

end Roost.Nestwal
