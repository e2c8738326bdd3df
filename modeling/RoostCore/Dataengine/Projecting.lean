import RoostCore.Dataengine.MongoStore

/-! The writes of a local mutation, alone and in a bulk write, change a document at its
expected version (`engine/mongo_store.go`, `engine/mongo_projection.go`). -/
namespace Roost.Dataengine
open Go Entity List Option
open Table (setAll get_setAll)

variable {V : Type} [DecidableEq V]

/-- The version that a write asks for in the document with its ID; zero asks for none. -/
structure Filter where
  version : UInt64

def Filter.accepts (filter : Filter) (doc : Document V) : Bool :=
  if filter.version = 0 then doc.get (field "_version") = none
  else doc.get (field "_version") = some (.int filter.version.toNat)

def Filter.encodes (filter : Filter) : Bool := filter.version.toNat < 2 ^ 63

def mutationFilter (m : Mutation) : Filter := ⟨m.expectedVersion⟩

def encodes (doc : Document V) : Bool := doc.pairs.all (·.2.encodes)

inductive Written where
  | matched
  | upserted
  | unmatched
  | duplicateKey
  | refused
  | unencoded
  deriving DecidableEq

/-- A write of the document with the mutation's ID; of an insertion with an ID that is
taken the database says so. -/
inductive WriteModel (V : Type) where
  | replaceOne (filter : Filter) (doc : Document V) (upsert : Bool)
  | updateOne (filter : Filter) (update : Update V)

open WriteModel

/-- The driver sends nothing that it cannot encode. -/
def WriteModel.run (mongo : Mongo V) (stored : Option (Document V)) :
    WriteModel V → Option (Document V) × Written
  | .replaceOne filter doc upsert =>
      if filter.encodes ∧ encodes doc then
        match stored with
        | none => if upsert then (some doc, .upserted) else (none, .unmatched)
        | some old =>
            if filter.accepts old then (some doc, .matched)
            else (some old, if upsert then .duplicateKey else .unmatched)
      else (stored, .unencoded)
  | .updateOne filter update =>
      if filter.encodes ∧ encodes update.set then
        match stored with
        | none => (none, .unmatched)
        | some old =>
            if filter.accepts old then
              match update.apply mongo old with
              | some next => (some next, .matched)
              | none => (some old, .refused)
            else (some old, .unmatched)
      else (stored, .unencoded)

inductive StoreError where
  | remoteProjection
  | bson
  | documentKey
  | mutationKind
  | refused
  | metadata
  | projectionConflict
  deriving DecidableEq

/-- The document of a Put, which both paths build alike. -/
def putDocument (mongo : Mongo V) (txID : Bytes) (m : Mutation) : Except StoreError (Document V) :=
  match mongo.elements m.data with
  | none => .error .bson
  | some elements =>
      let doc : Document V := setAll ∅ elements
      if doc.get (field "_id") ≠ some (.int m.key.id.toInt) then .error .documentKey
      else
        let doc := (doc.set (field "_id") (.int m.key.id.toInt)).set
          (field "_version") (.int m.nextVersion.toNat)
        let doc := (doc.set (field "_schema") (.int m.schema.toNat)).set
          (field "_last_tx") (.text txID)
        .ok ((doc.remove (field "_deleted")).remove (field "_deleted_at"))

def deleteUpdate (now : Time) (txID : Bytes) (m : Mutation) : Update V where
  set := setAll (frameworkSet txID m)
    [(field "_deleted", .bool true), (field "_deleted_at", .date now)]
  unset := []

def batchMutationModel (mongo : Mongo V) (now : Time) (txID : Bytes) (m : Mutation) :
    Except StoreError (WriteModel V) :=
  if m.kind = .put then
    (putDocument mongo txID m).map (.replaceOne (mutationFilter m) · true)
  else if m.kind = .patch then
    match patchUpdate mongo txID m with
    | none => .error .bson
    | some update => .ok (.updateOne (mutationFilter m) update)
  else if m.kind = .delete then .ok (.updateOne (mutationFilter m) (deleteUpdate now txID m))
  else .error .mutationKind

/-- Decodes a field of `projectionMeta`: an absent one is the zero value, one of another
type an error. -/
def readVersion (doc : Document V) : Option Nat :=
  match doc.get (field "_version") with
  | none => some 0
  | some (.int n) => if 0 ≤ n then some n.toNat else none
  | some _ => none

def readLastTx (doc : Document V) : Option Bytes :=
  match doc.get (field "_last_tx") with
  | none => some []
  | some (.text s) => some s
  | some _ => none

def projectionMeta (doc : Document V) : Option (Nat × Bytes) := do
  let version ← readVersion doc
  let lastTx ← readLastTx doc
  some (version, lastTx)

def classifyNoMatch (txID : Bytes) (m : Mutation) (stored : Option (Document V)) :
    Except StoreError Unit :=
  match stored with
  | none => .error .projectionConflict
  | some doc =>
      match projectionMeta doc with
      | none => .error .metadata
      | some (version, lastTx) =>
          if version = m.nextVersion.toNat ∧ lastTx = txID then .ok ()
          else .error .projectionConflict

/-- `FindOneAndUpdate` with a pipeline that replaces the document by a literal one. -/
def applyPut (mongo : Mongo V) (txID : Bytes) (m : Mutation) (inTransaction : Bool)
    (stored : Option (Document V)) : Option (Document V) × Except StoreError Unit :=
  match putDocument mongo txID m with
  | .error err => (stored, .error err)
  | .ok doc =>
      match (replaceOne (mutationFilter m) doc true).run mongo stored with
      | (after, .matched) | (after, .upserted) => (after, .ok ())
      | (after, .duplicateKey) =>
          (after, if inTransaction then .error .projectionConflict else classifyNoMatch txID m after)
      | (after, .unmatched) => (after, classifyNoMatch txID m after)
      | (after, .refused) => (after, .error .refused)
      | (after, .unencoded) => (after, .error .bson)

/-- The `UpdateOne` of a Patch or a Delete. -/
def applyUpdate (mongo : Mongo V) (txID : Bytes) (m : Mutation) (update : Update V)
    (stored : Option (Document V)) : Option (Document V) × Except StoreError Unit :=
  match (updateOne (mutationFilter m) update).run mongo stored with
  | (after, .matched) => (after, .ok ())
  | (after, .refused) => (after, .error .refused)
  | (after, .unencoded) => (after, .error .bson)
  | (after, _) => (after, classifyNoMatch txID m after)

def applyPatch (mongo : Mongo V) (txID : Bytes) (m : Mutation) (stored : Option (Document V)) :
    Option (Document V) × Except StoreError Unit :=
  match patchUpdate mongo txID m with
  | none => (stored, .error .bson)
  | some update => applyUpdate mongo txID m update stored

def applyDelete (mongo : Mongo V) (now : Time) (txID : Bytes) (m : Mutation)
    (stored : Option (Document V)) : Option (Document V) × Except StoreError Unit :=
  applyUpdate mongo txID m (deleteUpdate now txID m) stored

def applyMutation (mongo : Mongo V) (now : Time) (txID : Bytes) (m : Mutation)
    (inTransaction : Bool) (stored : Option (Document V)) :
    Option (Document V) × Except StoreError Unit :=
  if m.remote.isSome then (stored, .error .remoteProjection)
  else if m.kind = .put then applyPut mongo txID m inTransaction stored
  else if m.kind = .patch then applyPatch mongo txID m stored
  else if m.kind = .delete then applyDelete mongo now txID m stored
  else (stored, .error .mutationKind)

/-- The version of a stored document; an absent one and one without `_version` have
version zero. -/
def storedVersion (stored : Option (Document V)) : Nat :=
  match stored.bind (·.get (field "_version")) with
  | some (.int n) => n.toNat
  | _ => 0

/-- The stored document is the one that this transaction wrote. -/
def Replayed (txID : Bytes) (m : Mutation) (stored : Option (Document V)) : Prop :=
  stored.bind projectionMeta = some (m.nextVersion.toNat, txID)

/-- The metadata of a stored document can be read. -/
structure Readable (doc : Document V) : Prop where
  version : ∀ value ∈ doc.get (field "_version"), ∃ n : Nat, value = .int n
  lastTx : ∀ value ∈ doc.get (field "_last_tx"), ∃ s, value = .text s

/-- The mutations for which the version alone decides. The driver can encode their versions,
a Put has a document with its own ID and an absent document meets a Put exactly when version
zero is expected. A document that has version zero has no `_version`. At the expected version
a patch leaves the framework's fields alone and the database takes it; at another one the
document's metadata can be read, where it is asked for. -/
structure Decided (mongo : Mongo V) (txID : Bytes) (m : Mutation) (inTransaction : Bool)
    (stored : Option (Document V)) : Prop where
  encoded : m.expectedVersion.toNat < 2 ^ 63 ∧ (m.nextVersion.toNat < 2 ^ 63 ∨
    m.kind = .patch ∧ ∀ elements ∈ mongo.setElements m.patch, field "_version" ∈ elements.map Prod.fst)
  put : m.kind = .put → ∃ elements ∈ mongo.elements m.data,
    (setAll ∅ elements).get (field "_id") = some (.int m.key.id.toInt)
  absent : stored = none → (m.kind = .put ↔ m.expectedVersion = 0)
  unversioned : m.expectedVersion = 0 → storedVersion stored = 0 →
    ∀ doc ∈ stored, doc.get (field "_version") = none
  patch : m.kind = .patch → storedVersion stored = m.expectedVersion.toNat →
    ∀ doc ∈ stored, ∀ elements ∈ mongo.setElements m.patch, KeepsFramework txID m elements ∧
      ((updateOf txID m elements).apply mongo doc).isSome = true
  readable : storedVersion stored ≠ m.expectedVersion.toNat →
    ∀ doc ∈ stored, Readable doc ∨ m.kind = .put ∧ inTransaction = true

theorem accepts_iff {doc : Document V} : (mutationFilter m).accepts doc = true ↔
    storedVersion (some doc) = m.expectedVersion.toNat ∧
      (m.expectedVersion = 0 → doc.get (field "_version") = none) := by
  simp only [mutationFilter, Filter.accepts, storedVersion, bind_some]
  by_cases zero : m.expectedVersion = 0
  · simp +contextual [zero]
  · have positive : m.expectedVersion.toNat ≠ 0 := fun same => zero (UInt64.toNat_inj.mp same)
    cases doc.get (field "_version") with
    | none => simpa [zero] using positive.symm
    | some value =>
      cases value with
      | int n =>
        simp [zero]
        omega
      | _ => simpa [zero] using positive.symm

omit [DecidableEq V] in
theorem readable_iff {doc : Document V} : Readable doc ↔ ∃ read, projectionMeta doc = some read := by
  have version : (∀ value ∈ doc.get (field "_version"), ∃ n : Nat, value = .int n) ↔
      ∃ n, readVersion doc = some n := by
    unfold readVersion
    cases doc.get (field "_version") with
    | none => simp
    | some value =>
      cases value with
      | int n => simpa using ⟨fun ⟨k, same⟩ => same ▸ k.cast_nonneg, Int.eq_ofNat_of_zero_le⟩
      | _ => simp
  have lastTx : (∀ value ∈ doc.get (field "_last_tx"), ∃ s, value = .text s) ↔
      ∃ s, readLastTx doc = some s := by
    unfold readLastTx
    cases doc.get (field "_last_tx") with
    | none => simp
    | some value => cases value <;> simp
  simp only [projectionMeta, bind, bind_eq_some_iff]
  constructor
  · rintro ⟨first, second⟩
    obtain ⟨n, first⟩ := version.mp first
    obtain ⟨s, second⟩ := lastTx.mp second
    exact ⟨(n, s), n, first, s, second, rfl⟩
  · rintro ⟨_, n, first, s, second, -⟩
    exact ⟨version.mpr ⟨n, first⟩, lastTx.mpr ⟨s, second⟩⟩

omit [DecidableEq V] in
theorem classifyNoMatch_iff {doc : Document V} :
    (classifyNoMatch txID m (some doc) = .ok () ∧ Replayed txID m (some doc) ∨
      classifyNoMatch txID m (some doc) = .error .projectionConflict) ↔ Readable doc := by
  rw [readable_iff]
  cases read : projectionMeta doc with
  | none => simp [classifyNoMatch, read]
  | some pair =>
    simp only [classifyNoMatch, Replayed, bind_some, read]
    split
    · rename_i same
      simp [Prod.ext_iff, same]
    · simp

theorem putDocument_carries {doc : Document V} (built : putDocument mongo txID m = .ok doc) :
    Carries txID m doc := by
  unfold putDocument at built
  split at built
  · contradiction
  dsimp only at built
  split at built
  · contradiction
  cases built
  constructor
  · rw [Table.get_remove_ne _ (by decide +kernel), Table.get_remove_ne _ (by decide +kernel),
      Table.get_set_ne _ _ (by decide +kernel), Table.get_set_ne _ _ (by decide +kernel),
      Table.get_set_self]
  · rw [Table.get_remove_ne _ (by decide +kernel), Table.get_remove_ne _ (by decide +kernel),
      Table.get_set_self]

omit [DecidableEq V] in
/-- Writes of whole fields always succeed, and leave the other fields alone. -/
theorem Mongo.foldlM_assignPath_plain (mongo : Mongo V) {writes : List (Bytes × Option (Value V))}
    (plain : ∀ write ∈ writes, dot ∉ write.1) (doc : Document V) :
    ∃ next, writes.foldlM mongo.assignPath doc = some next ∧
      ∀ name ∉ writes.map Prod.fst, next.get name = doc.get name := by
  induction writes generalizing doc with
  | nil => exact ⟨doc, rfl, fun _ _ => rfl⟩
  | cons write rest ih =>
    rw [forall_mem_cons] at plain
    obtain ⟨next, applied, same⟩ := ih plain.2 (doc.assign write.1 write.2)
    refine ⟨next, ?_, fun name other => ?_⟩
    · rw [foldlM_cons, Mongo.assignPath, dropWhile_plain plain.1]
      exact applied
    · rw [map_cons, mem_cons, not_or] at other
      rw [same name other.2, Table.get_assign, if_neg other.1]

theorem deleteUpdate_apply (mongo : Mongo V) (now : Time) (txID : Bytes) (m : Mutation)
    (doc : Document V) :
    ∃ next, (deleteUpdate now txID m).apply mongo doc = some next ∧ Carries txID m next := by
  have keys (path : Bytes) (member : path ∈ (deleteUpdate now txID m : Update V).set.keys) :
      path ∈ frameworkFields := by
    rw [deleteUpdate, mem_setAll, mem_frameworkSet] at member
    exact mem_append.mpr member
  have sound : ¬ (deleteUpdate now txID m : Update V).Conflicting := by
    rintro (⟨a, -, none⟩ | ⟨a, -, b, second, rest, rfl⟩)
    · exact not_mem_nil none
    · exact plain_framework _ (keys _ second) (by simp)
  have written : (deleteUpdate now txID m : Update V).writes.map Prod.fst =
      (deleteUpdate now txID m : Update V).set.keys := by
    rw [Update.writes, deleteUpdate, map_nil, append_nil, List.map_map, ← Table.map_fst_pairs]
    rfl
  obtain ⟨next, applied, same⟩ := mongo.foldlM_assignPath_plain (fun write member =>
    plain_framework _ (keys _ (written ▸ mem_map_of_mem member))) doc
  have applied : (deleteUpdate now txID m).apply mongo doc = some next := by
    rw [Update.apply, if_neg sound, applied, Option.filter_some, if_pos]
    refine decide_eq_true (same _ fun member => ?_)
    have framework := keys _ (written ▸ member)
    revert framework
    decide +kernel
  have own {name : Bytes} (member : name ∈ setFields) :
      (deleteUpdate now txID m).set.get name = (frameworkSet txID m : Document V).get name :=
    get_setAll (setFields_disjoint name member)
  exact ⟨next, applied, Update.apply_get (by decide +kernel) applied (own (by decide +kernel)),
    Update.apply_get (by decide +kernel) applied (own (by decide +kernel))⟩

section encoding
omit [DecidableEq V]

theorem encodes_iff {doc : Document V} :
    encodes doc = true ↔ ∀ name, ∀ value ∈ doc.get name, value.encodes = true := by
  simp only [encodes, List.all_eq_true, Prod.forall, Table.mem_pairs, Option.mem_def]

theorem encodes_set {doc : Document V} (whole : encodes doc = true) (fits : value.encodes = true) :
    encodes (doc.set name value) = true := by
  rw [encodes_iff] at whole ⊢
  intro other given held
  rw [Table.get_set] at held
  split at held
  · cases held
    exact fits
  · exact whole other given held

theorem encodes_remove {doc : Document V} (whole : encodes doc = true) :
    encodes (doc.remove name) = true := by
  rw [encodes_iff] at whole ⊢
  intro other given held
  by_cases same : other = name
  · rw [same, Table.get_remove_self] at held
    exact absurd held (not_mem_none _)
  · rw [Table.get_remove_ne _ same] at held
    exact whole other given held

theorem encodes_setAll {doc : Document V} (fits : ∀ element ∈ elements, element.2.encodes = true)
    (kept : ∀ name ∉ elements.map Prod.fst, ∀ value ∈ doc.get name, value.encodes = true) :
    encodes (setAll doc elements) = true := by
  induction elements generalizing doc with
  | nil => exact encodes_iff.mpr fun name => kept name not_mem_nil
  | cons element rest ih =>
    rw [forall_mem_cons] at fits
    refine ih fits.2 fun name other value held => ?_
    rw [Table.get_set] at held
    split at held
    · cases held
      exact fits.1
    · rename_i distinct
      exact kept name (by simpa [distinct] using other) value held

theorem encodes_nat (n : Nat) : (Value.int n : Value V).encodes = true ↔ n < 2 ^ 63 := by
  simp only [Value.encodes, decide_eq_true_eq]
  omega

theorem encodes_frameworkSet (fits : name = field "_version" → m.nextVersion.toNat < 2 ^ 63) :
    ∀ value ∈ (frameworkSet txID m : Document V).get name, value.encodes = true := by
  intro value held
  simp only [frameworkSet, Table.get_set, Table.get_empty] at held
  split_ifs at held with _ _ version
  · cases held
    rfl
  · cases held
    exact (encodes_nat _).mpr (Nat.lt_trans m.schema.toNat_lt (by decide))
  · cases held
    exact (encodes_nat _).mpr (fits version)
  · exact absurd held (not_mem_none _)

theorem Carries.encodes {doc : Document V} (carries : Carries txID m doc)
    (whole : Dataengine.encodes doc = true) : m.nextVersion.toNat < 2 ^ 63 :=
  (encodes_nat _).mp (encodes_iff.mp whole _ _ carries.1)

end encoding

theorem putDocument_encodes {doc : Document V} (built : putDocument mongo txID m = .ok doc) :
    encodes doc = true ↔ m.nextVersion.toNat < 2 ^ 63 := by
  refine ⟨(putDocument_carries built).encodes, fun fits => ?_⟩
  unfold putDocument at built
  split at built
  · contradiction
  rename_i elements found
  dsimp only at built
  split at built
  · contradiction
  cases built
  have whole : encodes (setAll ∅ elements : Document V) = true :=
    encodes_setAll (mongo.encodes_elements _ _ found) fun _ _ _ held => absurd held (not_mem_none _)
  have key : (Value.int m.key.id.toInt : Value V).encodes = true :=
    decide_eq_true ⟨m.key.id.le_toInt, m.key.id.toInt_lt⟩
  have schema : (Value.int m.schema.toNat : Value V).encodes = true :=
    (encodes_nat _).mpr (Nat.lt_trans m.schema.toNat_lt (by decide))
  exact encodes_remove (encodes_remove (encodes_set (encodes_set (encodes_set (encodes_set whole key)
    ((encodes_nat _).mpr fits)) schema) rfl))

omit [DecidableEq V] in
theorem updateOf_encodes (mongo : Mongo V) (found : mongo.setElements m.patch = some elements) :
    encodes (updateOf txID m elements).set = true ↔
      m.nextVersion.toNat < 2 ^ 63 ∨ field "_version" ∈ elements.map Prod.fst := by
  refine ⟨fun whole => ?_, fun fits => ?_⟩
  · by_cases given : field "_version" ∈ elements.map Prod.fst
    · exact .inr given
    · exact .inl ((encodes_nat _).mp (encodes_iff.mp whole _ _ (get_setAll given)))
  · have decoded : ∀ element ∈ elements, element.2.encodes = true := by
      unfold Mongo.setElements at found
      split at found
      · cases found
        exact fun _ member => absurd member not_mem_nil
      · exact mongo.encodes_elements _ _ found
    exact encodes_setAll decoded fun name other => encodes_frameworkSet fun version =>
      fits.resolve_right (version ▸ other)

omit [DecidableEq V] in
theorem deleteUpdate_encodes :
    encodes (deleteUpdate now txID m : Update V).set = true ↔ m.nextVersion.toNat < 2 ^ 63 := by
  refine ⟨fun whole => (encodes_nat _).mp (encodes_iff.mp whole (field "_version") _ ?_), fun fits => ?_⟩
  · exact get_setAll (setFields_disjoint _ (by decide +kernel))
  · refine encodes_setAll (fun element member => ?_) fun name _ => encodes_frameworkSet fun _ => fits
    simp only [mem_cons, not_mem_nil, or_false] at member
    rcases member with rfl | rfl <;> rfl

variable {mongo : Mongo V} {now : Time} {txID : Bytes} {m : Mutation} {stored : Option (Document V)}

/-- What one write must do to a stored document; `bulk` is the outcome of its model in a
bulk write. -/
structure Projects (txID : Bytes) (m : Mutation) (stored : Option (Document V))
    (alone : Option (Document V) × Except StoreError Unit) (bulk : Option (Document V) × Written) :
    Prop where
  applied : storedVersion stored = m.expectedVersion.toNat →
    alone.2 = .ok () ∧ alone.1 ≠ stored ∧ ∃ doc, alone.1 = some doc ∧ Carries txID m doc
  refused : storedVersion stored ≠ m.expectedVersion.toNat → alone.1 = stored ∧
    (alone.2 = .ok () ∧ Replayed txID m stored ∨ alone.2 = .error .projectionConflict)
  same : bulk.1 = alone.1
  counted : bulk.2 = .matched ∨ bulk.2 = .upserted ↔ storedVersion stored = m.expectedVersion.toNat

omit [DecidableEq V] in
theorem storedVersion_carries (carries : Carries txID m doc) :
    storedVersion (some doc) = m.nextVersion.toNat := by
  simp [storedVersion, carries.1]

omit [DecidableEq V] in
/-- A document that carries the mutation is not the stored one at the expected version. -/
theorem Carries.changed (valid : validateMutation mongo.toHost m = .ok ())
    (carries : Carries txID m doc) (expected : storedVersion stored = m.expectedVersion.toNat) :
    some doc ≠ stored := by
  rintro rfl
  have same := UInt64.toNat_inj.mp ((storedVersion_carries carries).symm.trans expected)
  rw [(validateMutation_ok valid).1] at same
  simp at same

omit [DecidableEq V] in
theorem projects_written {next : Document V} {written : Written} (valid : validateMutation mongo.toHost m = .ok ())
    (counts : written = .matched ∨ written = .upserted) :
    Projects txID m stored (some next, .ok ()) (some next, written) ↔
      storedVersion stored = m.expectedVersion.toNat ∧ Carries txID m next := by
  constructor
  · intro projects
    have expected := projects.counted.mp counts
    obtain ⟨-, -, doc, same, carries⟩ := projects.applied expected
    cases same
    exact ⟨expected, carries⟩
  · rintro ⟨expected, carries⟩
    exact ⟨fun _ => ⟨rfl, carries.changed valid expected, next, rfl, carries⟩, (absurd expected ·), rfl,
      iff_of_true counts expected⟩

omit [DecidableEq V] in
theorem projects_untouched {written : Written}
    (uncounted : ¬ (written = .matched ∨ written = .upserted)) :
    Projects txID m stored (stored, result) (stored, written) ↔
      storedVersion stored ≠ m.expectedVersion.toNat ∧
        (result = .ok () ∧ Replayed txID m stored ∨ result = .error .projectionConflict) := by
  constructor
  · intro projects
    have other : storedVersion stored ≠ m.expectedVersion.toNat := mt projects.counted.mpr uncounted
    exact ⟨other, (projects.refused other).2⟩
  · rintro ⟨other, reported⟩
    exact ⟨(absurd · other), fun _ => ⟨rfl, reported⟩, rfl, iff_of_false uncounted other⟩

/-- A document that the filter does not accept stays as it is, and is at another version
unless it has a `_version` that counts as zero. -/
theorem unaccepted_iff {doc : Document V} {P : Prop}
    (unaccepted : ¬ (mutationFilter m).accepts doc = true) :
    storedVersion (some doc) ≠ m.expectedVersion.toNat ∧ P ↔
      (m.expectedVersion = 0 → storedVersion (some doc) = 0 → doc.get (field "_version") = none) ∧
        (storedVersion (some doc) ≠ m.expectedVersion.toNat → P) := by
  constructor
  · rintro ⟨other, holds⟩
    exact ⟨fun zero same => absurd (same.trans (by rw [zero]; rfl)) other, fun _ => holds⟩
  · rintro ⟨unversioned, holds⟩
    have other : storedVersion (some doc) ≠ m.expectedVersion.toNat := fun same =>
      unaccepted (accepts_iff.mpr ⟨same, fun zero => unversioned zero (by rw [same, zero]; rfl)⟩)
    exact ⟨other, holds other⟩

theorem applyPut_projects (valid : validateMutation mongo.toHost m = .ok ()) (inTransaction : Bool)
    {doc : Document V} (built : putDocument mongo txID m = .ok doc) :
    Projects txID m stored (applyPut mongo txID m inTransaction stored)
        ((replaceOne (mutationFilter m) doc true).run mongo stored) ↔
      ((mutationFilter m).encodes = true ∧ encodes doc = true) ∧
      (stored = none → m.expectedVersion = 0) ∧
      (m.expectedVersion = 0 → storedVersion stored = 0 →
        ∀ old ∈ stored, old.get (field "_version") = none) ∧
      (storedVersion stored ≠ m.expectedVersion.toNat →
        ∀ old ∈ stored, Readable old ∨ inTransaction = true) := by
  have carries := putDocument_carries built
  simp only [applyPut, built, run]
  by_cases encoded : (mutationFilter m).encodes = true ∧ encodes doc = true
  · rw [if_pos encoded, and_iff_right encoded]
    cases stored with
    | none =>
      refine (projects_written valid (.inr rfl)).trans ?_
      simp [carries, storedVersion, ← UInt64.toNat_inj, eq_comm]
    | some old =>
      simp only [reduceCtorEq, false_implies, true_and, Option.mem_some_iff, forall_eq']
      by_cases accepted : (mutationFilter m).accepts old = true
      · obtain ⟨expected, unversioned⟩ := accepts_iff.mp accepted
        rw [if_pos accepted]
        refine (projects_written valid (.inl rfl)).trans (iff_of_true ⟨expected, carries⟩ ?_)
        exact ⟨fun zero _ => unversioned zero, (absurd expected ·)⟩
      · rw [if_neg accepted]
        refine (projects_untouched (by simp)).trans ((unaccepted_iff accepted).trans ?_)
        cases inTransaction with
        | true => simp
        | false => simp [classifyNoMatch_iff]
  · rw [if_neg encoded]
    refine (projects_untouched (by simp)).trans (iff_of_false (by simp) fun decided => encoded decided.1)

theorem applyUpdate_projects (valid : validateMutation mongo.toHost m = .ok ()) {update : Update V} :
    Projects txID m stored (applyUpdate mongo txID m update stored)
        ((updateOne (mutationFilter m) update).run mongo stored) ↔
      ((mutationFilter m).encodes = true ∧ encodes update.set = true) ∧
      (stored = none → m.expectedVersion ≠ 0) ∧
      (m.expectedVersion = 0 → storedVersion stored = 0 →
        ∀ old ∈ stored, old.get (field "_version") = none) ∧
      (storedVersion stored = m.expectedVersion.toNat →
        ∀ old ∈ stored, ∃ next, update.apply mongo old = some next ∧ Carries txID m next) ∧
      (storedVersion stored ≠ m.expectedVersion.toNat → ∀ old ∈ stored, Readable old) := by
  simp only [applyUpdate, run]
  by_cases encoded : (mutationFilter m).encodes = true ∧ encodes update.set = true
  · rw [if_pos encoded, and_iff_right encoded]
    cases stored with
    | none =>
      refine (projects_untouched (by simp)).trans ?_
      simp [storedVersion, classifyNoMatch, ← UInt64.toNat_inj, eq_comm]
    | some old =>
      simp only [reduceCtorEq, false_implies, true_and, Option.mem_some_iff, forall_eq']
      by_cases accepted : (mutationFilter m).accepts old = true
      · obtain ⟨expected, unversioned⟩ := accepts_iff.mp accepted
        rw [if_pos accepted]
        refine Iff.trans (b := ∃ next, update.apply mongo old = some next ∧ Carries txID m next) ?_
          ⟨fun applies => ⟨fun zero _ => unversioned zero, fun _ => applies, (absurd expected ·)⟩,
            fun decided => decided.2.1 expected⟩
        cases update.apply mongo old with
        | some next => exact (projects_written valid (.inl rfl)).trans (by simp [expected])
        | none => exact (projects_untouched (by simp)).trans (by simp)
      · rw [if_neg accepted]
        refine (projects_untouched (by simp)).trans ?_
        constructor
        · rintro ⟨other, reported⟩
          have unversioned := ((unaccepted_iff accepted).mp ⟨other, trivial⟩).1
          exact ⟨unversioned, (absurd · other), fun _ => classifyNoMatch_iff.mp reported⟩
        · rintro ⟨unversioned, -, readable⟩
          exact (unaccepted_iff accepted).mpr
            ⟨unversioned, fun other => classifyNoMatch_iff.mpr (readable other)⟩
  · rw [if_neg encoded]
    refine (projects_untouched (by simp)).trans (iff_of_false (by simp) fun decided => encoded decided.1)

theorem putDocument_built (txID : Bytes) : (∃ doc, putDocument mongo txID m = .ok doc) ↔
    ∃ elements ∈ mongo.elements m.data,
      (setAll ∅ elements).get (field "_id") = some (.int m.key.id.toInt) := by
  unfold putDocument
  cases mongo.elements m.data with
  | none => simp
  | some elements =>
    dsimp only
    split
    · rename_i wrong
      simpa using wrong
    · rename_i right
      simpa using right

/-- A patch is stored with the framework's version and transaction exactly when it leaves the
framework's fields alone and the database takes its update. -/
theorem patch_applies (txID : Bytes) (valid : validateMutation mongo.toHost m = .ok ())
    (isPatch : m.kind = .patch) :
    ∃ elements, mongo.setElements m.patch = some elements ∧ ∀ doc,
      ((∃ next, (updateOf txID m elements).apply mongo doc = some next ∧ Carries txID m next) ↔
        KeepsFramework txID m elements ∧
          ((updateOf txID m elements).apply mongo doc).isSome = true) := by
  obtain ⟨elements, found, framework⟩ := patchUpdate_framework txID valid isPatch
  refine ⟨elements, found, fun doc => ?_⟩
  have carries {next : Document V} (applied : (updateOf txID m elements).apply mongo doc = some next) :
      Carries txID m next ↔ Carries txID m (updateOf txID m elements).set := by
    have stored := updateOf_apply_get applied
    rw [Carries, Carries, stored _ (by decide +kernel), stored _ (by decide +kernel)]
  rw [← framework, isSome_iff_exists]
  constructor
  · rintro ⟨next, applied, held⟩
    refine ⟨⟨fun conflicting => ?_, (carries applied).mp held⟩, next, applied⟩
    rw [Update.apply, if_pos conflicting] at applied
    contradiction
  · rintro ⟨⟨-, held⟩, next, applied⟩
    exact ⟨next, applied, (carries applied).mpr held⟩

omit [DecidableEq V] in
theorem mutationFilter_encodes :
    (mutationFilter m).encodes = true ↔ m.expectedVersion.toNat < 2 ^ 63 := decide_eq_true_iff

theorem Decided.next (decided : Decided mongo txID m inTransaction stored) (noPatch : m.kind ≠ .patch) :
    m.nextVersion.toNat < 2 ^ 63 := decided.encoded.2.resolve_right fun given => noPatch given.1

theorem projects_iff_decided (now : Time) (inTransaction : Bool)
    (valid : validateMutation mongo.toHost m = .ok ()) (isLocal : m.remote = none) :
    (∃ model, batchMutationModel mongo now txID m = .ok model ∧
      Projects txID m stored (applyMutation mongo now txID m inTransaction stored)
        (model.run mongo stored)) ↔ Decided mongo txID m inTransaction stored := by
  have contents := ((validateMutation_ok valid).2.2 isLocal).1
  simp only [applyMutation, batchMutationModel, isLocal, isSome_none, Bool.false_eq_true,
    if_false]
  unfold validateContents at contents
  split_ifs at contents with isPut _ isPatch _ isDelete
  · have noPatch : m.kind ≠ .patch := by rw [isPut]; decide
    simp only [isPut, if_true]
    cases built : putDocument mongo txID m with
    | error err =>
      refine iff_of_false (by simp [Except.map]) fun decided => ?_
      obtain ⟨doc, other⟩ := (putDocument_built txID).mpr (decided.put isPut)
      rw [built] at other
      contradiction
    | ok doc =>
      simp only [Except.map, Except.ok.injEq, exists_eq_left', applyPut_projects valid _ built,
        mutationFilter_encodes, putDocument_encodes built]
      constructor
      · rintro ⟨encoded, absent, unversioned, readable⟩
        exact {
          encoded := ⟨encoded.1, .inl encoded.2⟩
          put := fun _ => (putDocument_built txID).mp ⟨doc, built⟩
          absent := fun none => iff_of_true isPut (absent none)
          unversioned
          patch := (absurd · noPatch)
          readable := fun other old held => (readable other old held).imp_right (⟨isPut, ·⟩) }
      · intro decided
        exact ⟨⟨decided.encoded.1, decided.next noPatch⟩, fun none => (decided.absent none).mp isPut,
          decided.unversioned, fun other old held => (decided.readable other old held).imp_right And.right⟩
  · obtain ⟨elements, found, applies⟩ := patch_applies txID valid isPatch
    rw [if_neg isPut, if_neg isPut, if_pos isPatch, if_pos isPatch, applyPatch, patchUpdate, found]
    simp only [map_some, Except.ok.injEq, exists_eq_left', applyUpdate_projects valid,
      mutationFilter_encodes, updateOf_encodes mongo found, applies]
    constructor
    · rintro ⟨encoded, absent, unversioned, patch, readable⟩
      exact {
        encoded := ⟨encoded.1, encoded.2.imp_right fun given => ⟨isPatch, by simpa [found] using given⟩⟩
        put := (absurd · isPut)
        absent := fun none => iff_of_false isPut (absent none)
        unversioned
        patch := fun _ expected doc held => by simpa [found] using patch expected doc held
        readable := fun other old held => .inl (readable other old held) }
    · intro decided
      exact ⟨⟨decided.encoded.1, decided.encoded.2.imp_right fun given => given.2 elements found⟩,
        fun none zero => isPut ((decided.absent none).mpr zero), decided.unversioned,
        fun expected old held => decided.patch isPatch expected old held elements found,
        fun other old held => (decided.readable other old held).resolve_right fun put => isPut put.1⟩
  · rw [if_neg isPut, if_neg isPut, if_neg isPatch, if_neg isPatch, if_pos isDelete, if_pos isDelete,
      applyDelete]
    simp only [Except.ok.injEq, exists_eq_left', applyUpdate_projects valid, mutationFilter_encodes,
      deleteUpdate_encodes]
    constructor
    · rintro ⟨encoded, absent, unversioned, -, readable⟩
      exact {
        encoded := ⟨encoded.1, .inl encoded.2⟩
        put := (absurd · isPut)
        absent := fun none => iff_of_false isPut (absent none)
        unversioned
        patch := (absurd · isPatch)
        readable := fun other old held => .inl (readable other old held) }
    · intro decided
      exact ⟨⟨decided.encoded.1, decided.next isPatch⟩,
        fun none zero => isPut ((decided.absent none).mpr zero), decided.unversioned,
        fun _ old _ => deleteUpdate_apply mongo now txID m old,
        fun other old held => (decided.readable other old held).resolve_right fun put => isPut put.1⟩

def putOf (expected : UInt64) : Mutation :=
  mutationOf .put expected (field "_id") { setBSON := [], unset := [] }

/-- A Put of a new document is decided. -/
theorem putOf_decided : Decided plainMongo [1] (putOf 0) false none where
  encoded := by decide +kernel
  put _ := ⟨_, rfl, by decide +kernel⟩
  absent _ := by decide +kernel
  unversioned := nofun
  patch := nofun
  readable := nofun

omit [DecidableEq V] in
theorem Carries.classified {doc : Document V} (carries : Carries txID m doc) :
    classifyNoMatch txID m (some doc) = .ok () := by
  simp [classifyNoMatch, projectionMeta, readVersion, readLastTx, carries.1, carries.2]

theorem Carries.unaccepted {doc : Document V} (valid : validateMutation mongo.toHost m = .ok ())
    (carries : Carries txID m doc) : (mutationFilter m).accepts doc = false :=
  Bool.eq_false_iff.mpr fun accepted => carries.changed valid (accepts_iff.mp accepted).1 rfl

/-- The fast path of `Project` may run again after a crash: a mutation that was written is
found written, whatever the clock says by then, and the document stays as it is. -/
theorem written_mutation_replayed (mongo : Mongo V) (now later : Time) (txID : Bytes) (m : Mutation)
    (stored : Option (Document V)) (valid : validateMutation mongo.toHost m = .ok ())
    (isLocal : m.remote = none) (decided : Decided mongo txID m false stored)
    (expected : storedVersion stored = m.expectedVersion.toNat) :
    ∃ doc, applyMutation mongo now txID m false stored = (some doc, .ok ()) ∧
      applyMutation mongo later txID m false (some doc) = (some doc, .ok ()) := by
  obtain ⟨_, -, projects⟩ := (projects_iff_decided now false valid isLocal).mpr decided
  obtain ⟨accepted, -, doc, after, carries⟩ := projects.applied expected
  refine ⟨doc, Prod.ext after accepted, ?_⟩
  have filter := mutationFilter_encodes.mpr decided.encoded.1
  have unaccepted := carries.unaccepted valid
  have contents := ((validateMutation_ok valid).2.2 isLocal).1
  simp only [applyMutation, isLocal, isSome_none, Bool.false_eq_true, if_false]
  unfold validateContents at contents
  split_ifs at contents with isPut _ isPatch _ isDelete
  · obtain ⟨new, built⟩ := (putDocument_built txID).mpr (decided.put isPut)
    have sends := (putDocument_encodes built).mpr (decided.next (by rw [isPut]; decide))
    simp [isPut, applyPut, built, run, filter, sends, unaccepted, carries.classified]
  · obtain ⟨elements, found, -⟩ := patch_applies txID valid isPatch
    have sends : encodes (updateOf txID m elements).set = true := (updateOf_encodes mongo found).mpr
      (decided.encoded.2.imp_right fun given => given.2 elements found)
    rw [if_neg isPut, if_pos isPatch]
    simp [applyPatch, patchUpdate, found, applyUpdate, run, filter, sends, unaccepted,
      carries.classified]
  · have sends : encodes (deleteUpdate later txID m : Update V).set = true :=
      deleteUpdate_encodes.mpr (decided.next isPatch)
    rw [if_neg isPut, if_neg isPatch, if_pos isDelete]
    simp [applyDelete, applyUpdate, run, filter, sends, unaccepted, carries.classified]

theorem written_mutation_replayed_created :
    ∃ doc, applyMutation plainMongo 0 [1] (putOf 0) false none = (some doc, .ok ()) ∧
      applyMutation plainMongo 5 [1] (putOf 0) false (some doc) = (some doc, .ok ()) :=
  written_mutation_replayed plainMongo 0 5 [1] (putOf 0) none (by decide +kernel) rfl
    putOf_decided rfl

end Roost.Dataengine
