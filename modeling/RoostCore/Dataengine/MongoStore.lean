import RoostCore.Dataengine.Record
import RoostCore.Go.ByteText
import RoostCore.Go.Time
import RoostCore.Go.Writer

/-! The projection of local mutations into Mongo documents (`engine/mongo_store.go`,
`engine/mongo_projection.go`): a mutation is written alone, or as a model of a bulk write.
A collection that cannot be resolved and calls that fail on the way are left out. -/
namespace Roost.Dataengine
open Go Entity List Option Table

/-- A value of a field; `V` are the values that the framework does not write itself. -/
inductive Value (V : Type) where
  | int (n : Int)
  | text (s : Bytes)
  | bool (b : Bool)
  | date (t : Time)
  | other (v : V)
  deriving DecidableEq

/-- The driver encodes a whole number as an `int64` and refuses one that does not fit. -/
def Value.encodes {V : Type} : Value V → Bool
  | .int n => -2 ^ 63 ≤ n ∧ n < 2 ^ 63
  | _ => true

abbrev Document (V : Type) := Table Bytes (Value V)

def field (name : String) : Bytes := name.toList.map charByte

def setFields : List Bytes := [field "_version", field "_schema", field "_last_tx"]

def tombstoneFields : List Bytes := [field "_deleted", field "_deleted_at"]

/-- The fields that belong to the framework. -/
def frameworkFields : List Bytes := setFields ++ tombstoneFields

/-- The BSON library gives the elements of a document. The database gives the value of a
field after the update of a path inside it, or refuses the update. -/
structure Mongo (V : Type) extends Host where
  elements : Bytes → Option (List (Bytes × Value V))
  bsonKeys_eq : ∀ bytes, bsonKeys bytes = (elements bytes).map (map Prod.fst)
  encodes_elements : ∀ bytes, ∀ list ∈ elements bytes, ∀ element ∈ list, element.2.encodes = true
  nested : Option (Value V) → Bytes → Option (Value V) → Option (Option (Value V))

variable {V : Type}

structure Update (V : Type) where
  set : Table Bytes (Value V)
  unset : List Bytes

def frameworkSet (txID : Bytes) (m : Mutation) : Document V :=
  ((set ∅ (field "_version") (.int m.nextVersion.toNat)).set
    (field "_schema") (.int m.schema.toNat)).set (field "_last_tx") (.text txID)

def Mongo.setElements (mongo : Mongo V) (patch : FieldPatch) : Option (List (Bytes × Value V)) :=
  if patch.setBSON = [] then some [] else mongo.elements patch.setBSON

/-- The update of a patch, given the elements of its set part. -/
def updateOf (txID : Bytes) (m : Mutation) (elements : List (Bytes × Value V)) : Update V where
  set := setAll (frameworkSet txID m) elements
  unset := (tombstoneFields ++ m.patch.unset).eraseDups

def patchUpdate (mongo : Mongo V) (txID : Bytes) (m : Mutation) : Option (Update V) :=
  (mongo.setElements m.patch).map (updateOf txID m)

/-- The path `path` leads into the value at `parent`. -/
def Inside (parent path : Bytes) : Prop := ∃ rest, path = parent ++ dot :: rest

instance (parent path : Bytes) : Decidable (Inside parent path) :=
  decidable_of_iff ((parent ++ [dot]) <+: path) <| by
    simp [Inside, List.IsPrefix, eq_comm]

namespace Update

/-- The targets with their new values. -/
def writes (u : Update V) : List (Bytes × Option (Value V)) :=
  u.set.pairs.map (Prod.map id some) ++ u.unset.map (·, none)

def targets (u : Update V) : List Bytes := u.set.keys ++ u.unset

/-- Mongo refuses an update with two targets of which one is, or leads into, the other. -/
def Conflicting (u : Update V) : Prop :=
  (∃ a ∈ u.set.keys, a ∈ u.unset) ∨ ∃ a ∈ u.targets, ∃ b ∈ u.targets, Inside a b
  deriving Decidable

end Update

/-- Writes or removes (`none`) what a dotted path leads to. -/
def Mongo.assignPath (mongo : Mongo V) (doc : Document V) (target : Bytes × Option (Value V)) :
    Option (Document V) :=
  match target.1.dropWhile (· ≠ dot) with
  | [] => some (doc.assign target.1 target.2)
  | _ :: rest =>
      let top := target.1.takeWhile (· ≠ dot)
      (mongo.nested (doc.get top) rest target.2).map (doc.assign top)

/-- The ID of a document is immutable. -/
def Update.apply [DecidableEq V] (mongo : Mongo V) (u : Update V) (doc : Document V) :
    Option (Document V) :=
  if u.Conflicting then none
  else (u.writes.foldlM mongo.assignPath doc).filter fun next =>
    next.get (field "_id") = doc.get (field "_id")

/-! Targets of an admitted patch. -/

theorem addPath_ok {xs acc paths : List Bytes} (h : xs.foldlM addPath acc = .ok paths)
    (nodup : acc.Nodup) : paths = xs.reverse ++ acc ∧ paths.Nodup := by
  induction xs generalizing acc with
  | nil =>
    cases h
    exact ⟨rfl, nodup⟩
  | cons x rest ih =>
    obtain ⟨next, added, h⟩ := bind_ok h
    obtain ⟨-, added⟩ := guard_ok added
    obtain ⟨fresh, added⟩ := guard_ok added
    cases added
    obtain ⟨rfl, distinct⟩ := ih h (nodup_cons.mpr ⟨fresh, nodup⟩)
    exact ⟨by simp, distinct⟩

theorem not_inside (h : overlapping paths = false) (member : a ∈ paths) (other : b ∈ paths) :
    ¬ Inside a b := by
  rintro ⟨rest, rfl⟩
  have found : overlapping paths = true := by
    refine any_eq_true.mpr ⟨_, other, any_eq_true.mpr ⟨a.length, ?_, ?_⟩⟩
    · simp
    · simp [member]
  exact Bool.false_ne_true (h.symm.trans found)

def patchPaths (patch : FieldPatch) (elements : List (Bytes × Value V)) : List Bytes :=
  elements.map Prod.fst ++ patch.unset

variable {mongo : Mongo V}

theorem validatePatchPaths_ok (valid : validatePatchPaths mongo.toHost patch = .ok ()) :
    ∃ elements removed paths, mongo.setElements patch = some elements ∧
      patch.unset.foldlM addPath [] = .ok removed ∧
      (elements.map Prod.fst).foldlM addPath removed = .ok paths ∧ overlapping paths = false := by
  obtain ⟨removed, unset, valid⟩ := bind_ok valid
  unfold Mongo.setElements
  split at valid
  · rename_i none
    refine ⟨[], removed, removed, if_pos none, unset, rfl, ?_⟩
    simpa [bind, Except.bind, pure, Except.pure, throw, throwThe, MonadExceptOf.throw] using valid
  rename_i given
  cases keys : mongo.bsonKeys patch.setBSON with
  | none => simp [keys, bind, Except.bind, throw, throwThe, MonadExceptOf.throw] at valid
  | some names =>
    rw [mongo.bsonKeys_eq, map_eq_some_iff] at keys
    obtain ⟨elements, found, rfl⟩ := keys
    simp only [mongo.bsonKeys_eq, found, map_some] at valid
    obtain ⟨paths, added, valid⟩ := bind_ok valid
    refine ⟨elements, removed, paths, by rw [if_neg given, found], unset, added, ?_⟩
    simpa [bind, Except.bind, pure, Except.pure, throw, throwThe, MonadExceptOf.throw] using valid

/-- The paths of an admitted patch are distinct, and none leads into another. -/
theorem patchPaths_apart {patch : FieldPatch}
    (valid : validatePatchPaths mongo.toHost patch = .ok ()) :
    ∃ elements, mongo.setElements patch = some elements ∧ (patchPaths patch elements).Nodup ∧
      ∀ a ∈ patchPaths patch elements, ∀ b ∈ patchPaths patch elements, ¬ Inside a b := by
  obtain ⟨elements, removed, paths, found, unset, set, apart⟩ := validatePatchPaths_ok valid
  obtain ⟨rfl, distinct⟩ := addPath_ok unset nodup_nil
  obtain ⟨rfl, distinct⟩ := addPath_ok set distinct
  have perm : ((elements.map Prod.fst).reverse ++ (patch.unset.reverse ++ [])).Perm
      (patchPaths patch elements) := by
    rw [append_nil]
    exact (reverse_perm _).append (reverse_perm _)
  refine ⟨elements, found, perm.nodup_iff.mp distinct, fun a member b other => ?_⟩
  exact not_inside apart (perm.mem_iff.mpr member) (perm.mem_iff.mpr other)

variable {elements : List (Bytes × Value V)} {path : Bytes}

theorem mem_setAll :
    path ∈ (setAll doc elements).keys ↔ path ∈ doc.keys ∨ path ∈ elements.map Prod.fst := by
  induction elements generalizing doc with
  | nil => simp [setAll]
  | cons element rest ih =>
    refine ih.trans ?_
    rw [mem_keys_iff, mem_keys_iff, get_set, map_cons, mem_cons]
    split <;> simp_all

variable {m : Mutation}

theorem mem_frameworkSet : path ∈ (frameworkSet txID m : Document V).keys ↔
      path ∈ setFields := by
  simp only [mem_keys_iff, frameworkSet, get_set, setFields, mem_cons,
    not_mem_nil]
  grind [get_empty]

/-- The field that a path starts at. -/
def top (path : Bytes) : Bytes := path.takeWhile (· ≠ dot)

theorem dropWhile_plain (plain : dot ∉ path) : path.dropWhile (· ≠ dot) = [] :=
  dropWhile_eq_nil_iff.mpr fun b member => by simpa using ne_of_mem_of_not_mem member plain

theorem top_self (plain : dot ∉ path) : top path = path :=
  takeWhile_eq_self_iff.mpr fun b member => by simpa using ne_of_mem_of_not_mem member plain

theorem eq_or_inside_top (path : Bytes) : path = top path ∨ Inside (top path) path := by
  have whole := takeWhile_append_dropWhile (p := (· ≠ dot)) (l := path)
  cases rest : path.dropWhile (· ≠ dot) with
  | nil =>
    rw [rest, append_nil] at whole
    exact .inl whole.symm
  | cons c rest' =>
    have stop := head?_dropWhile_not (· ≠ dot) path
    simp only [rest, head?_cons] at stop
    have here : c = dot := by simpa using stop
    rw [rest, here] at whole
    exact .inr ⟨rest', whole.symm⟩

theorem setFields_disjoint : ∀ path ∈ setFields, path ∉ tombstoneFields := by decide +kernel

theorem plain_framework : ∀ path ∈ frameworkFields, dot ∉ path := by decide +kernel

theorem mem_updateOf_set :
    path ∈ (updateOf txID m elements).set.keys ↔ path ∈ setFields ∨ path ∈ elements.map Prod.fst := by
  rw [updateOf, mem_setAll, mem_frameworkSet]

theorem mem_updateOf_unset : path ∈ (updateOf txID m elements).unset ↔
      path ∈ tombstoneFields ∨ path ∈ m.patch.unset := by
  rw [updateOf, mem_eraseDups, mem_append]

theorem mem_updateOf_targets : path ∈ (updateOf txID m elements).targets ↔
      path ∈ frameworkFields ∨ path ∈ patchPaths m.patch elements := by
  rw [Update.targets, mem_append, mem_updateOf_set, mem_updateOf_unset]
  rw [frameworkFields, patchPaths, mem_append, mem_append]
  exact or_or_or_comm

/-- A patch leaves the framework's fields to the framework: it writes none of them in part,
removes none that the update sets, sets none that the update removes, and a value that it
gives to the version or to the transaction is the framework's own. -/
structure KeepsFramework (txID : Bytes) (m : Mutation) (elements : List (Bytes × Value V)) :
    Prop where
  whole : ∀ path ∈ patchPaths m.patch elements, ∀ name ∈ frameworkFields, ¬ Inside name path
  unset : ∀ path ∈ m.patch.unset, path ∉ setFields
  set : ∀ path ∈ elements.map Prod.fst, path ∉ tombstoneFields
  version : ∀ value, (field "_version", value) ∈ elements → value = .int m.nextVersion.toNat
  lastTx : ∀ value, (field "_last_tx", value) ∈ elements → value = .text txID

theorem KeepsFramework.not_conflicting (keeps : KeepsFramework txID m elements)
    (distinct : (patchPaths m.patch elements).Nodup)
    (apart : ∀ a ∈ patchPaths m.patch elements, ∀ b ∈ patchPaths m.patch elements, ¬ Inside a b) :
    ¬ (updateOf txID m elements).Conflicting := by
  rintro (⟨a, inSet, inUnset⟩ | ⟨a, first, b, second, inside⟩)
  · rcases mem_updateOf_set.mp inSet with framework | new
    · rcases mem_updateOf_unset.mp inUnset with other | gone
      · exact setFields_disjoint a framework other
      · exact keeps.unset a gone framework
    · rcases mem_updateOf_unset.mp inUnset with other | gone
      · exact keeps.set a new other
      · exact (nodup_append.mp distinct).2.2 a new a gone rfl
  · rcases mem_updateOf_targets.mp second with other | written
    · obtain ⟨rest, rfl⟩ := inside
      exact plain_framework _ other (by simp)
    · rcases mem_updateOf_targets.mp first with framework | also
      · exact keeps.whole b written a framework inside
      · exact apart a also b written inside

theorem Mongo.assignPath_get_ne (assigned : mongo.assignPath doc write = some new)
    (other : top write.1 ≠ name) : new.get name = doc.get name := by
  unfold Mongo.assignPath at assigned
  split at assigned
  · rename_i rest
    have whole : top write.1 = write.1 :=
      takeWhile_eq_self_iff.mpr (dropWhile_eq_nil_iff.mp rest)
    cases assigned
    rw [get_assign, if_neg fun same => other (whole.trans same.symm)]
  · obtain ⟨value, -, rfl⟩ := map_eq_some_iff.mp assigned
    rw [get_assign, if_neg fun same => other same.symm]

/-- A field that is written once, and not in part, has its new value after all writes. -/
theorem Mongo.foldlM_assignPath_get (plain : dot ∉ name) {writes : List (Bytes × Option (Value V))}
    (once : ∀ write ∈ writes, write = (name, some value) ∨ top write.1 ≠ name)
    (applied : writes.foldlM mongo.assignPath doc = some new)
    (written : doc.get name = some value ∨ (name, some value) ∈ writes) :
    new.get name = some value := by
  induction writes generalizing doc with
  | nil =>
    cases applied
    simpa using written
  | cons write rest ih =>
    obtain ⟨middle, assigned, applied⟩ := bind_eq_some_iff.mp applied
    refine ih (fun later member => once later (mem_cons_of_mem _ member)) applied ?_
    rcases once write mem_cons_self with rfl | other
    · simp only [Mongo.assignPath, dropWhile_plain plain, some.injEq] at assigned
      rw [← assigned, get_assign, if_pos rfl]
      exact .inl rfl
    · rw [Mongo.assignPath_get_ne assigned other]
      refine written.imp_right fun member => ?_
      rcases mem_cons.mp member with rfl | later
      · exact absurd (top_self plain) other
      · exact later

variable [DecidableEq V]

theorem Update.apply_get {u : Update V} {name : Bytes} (plain : dot ∉ name)
    (applied : u.apply mongo doc = some result) (set : u.set.get name = some value) :
    result.get name = some value := by
  unfold Update.apply at applied
  split at applied
  · contradiction
  rename_i sound
  replace applied := (filter_eq_some_iff.mp applied).1
  have key : name ∈ u.set.keys := mem_keys_iff.mpr (by rw [set]; rfl)
  refine Mongo.foldlM_assignPath_get plain (fun write member => ?_) applied (.inr ?_)
  · -- a write that starts at this field is its own, as the targets do not conflict
    have target : write.1 ∈ u.targets := by
      rw [Update.targets, ← map_fst_pairs]
      rcases mem_append.mp member with new | gone
      · obtain ⟨pair, inside, rfl⟩ := mem_map.mp new
        exact mem_append_left _ (mem_map_of_mem inside)
      · obtain ⟨path, inside, rfl⟩ := mem_map.mp gone
        exact mem_append_right _ inside
    refine (eq_or_ne (top write.1) name).imp_left fun starts => ?_
    rcases eq_or_inside_top write.1 with whole | inside
    · rcases mem_append.mp member with new | gone
      · obtain ⟨pair, inside, rfl⟩ := mem_map.mp new
        have same : pair.1 = name := whole.trans starts
        have held := mem_pairs.mp inside
        rw [same, set] at held
        simp [Prod.map, same, some.inj held]
      · obtain ⟨path, inside, rfl⟩ := mem_map.mp gone
        exact absurd (.inl ⟨name, key, (whole.trans starts) ▸ inside⟩) sound
    · rw [starts] at inside
      exact absurd (.inr ⟨name, mem_append_left _ key, _, target, inside⟩) sound
  · exact mem_append_left _ (mem_map.mpr ⟨(name, value), mem_pairs.mpr set, rfl⟩)

theorem validateMutation_ok (valid : validateMutation host m = .ok ()) :
    m.nextVersion = m.expectedVersion + 1 ∧
      (∀ remote, m.remote = some remote → validateRemoteMutation host m remote = .ok ()) ∧
      (m.remote = none → validateContents m = .ok () ∧ validatePatchPaths host m.patch = .ok ()) := by
  obtain ⟨-, valid⟩ := guard_ok valid
  obtain ⟨versions, valid⟩ := guard_ok valid
  refine ⟨by simpa using (not_or.mp versions).2, ?_⟩
  split at valid
  · rename_i remote given
    exact ⟨fun other same => some.inj (given.symm.trans same) ▸ valid, by simp [given]⟩
  · rename_i given
    obtain ⟨⟨⟩, contents, valid⟩ := bind_ok valid
    exact ⟨by simp [given], fun _ => ⟨contents, valid⟩⟩

theorem remote_of_patch (valid : validateMutation host m = .ok ()) (isPatch : m.kind = .patch) :
    m.remote = none := by
  cases remote : m.remote with
  | none => rfl
  | some commit =>
    have checked := (validateMutation_ok valid).2.1 commit remote
    unfold validateRemoteMutation at checked
    simp only [bind, Except.bind, pure, Except.pure, throw, throwThe, MonadExceptOf.throw] at checked
    have wrong : (commit.delete ∧ m.kind ≠ .delete) ∨ (!commit.delete ∧ m.kind ≠ .put) ∨ m.data ≠ [] ∨
        !m.patch.empty := by
      rw [isPatch]
      cases commit.delete with
      | false => exact .inr (.inl ⟨rfl, by decide⟩)
      | true => exact .inl ⟨rfl, by decide⟩
    split at checked
    all_goals grind

/-- A written document has the version and the transaction of the mutation. -/
def Carries (txID : Bytes) (m : Mutation) (doc : Document V) : Prop :=
  doc.get (field "_version") = some (.int m.nextVersion.toNat) ∧
    doc.get (field "_last_tx") = some (.text txID)

omit [DecidableEq V] in
/-- The update of an admitted patch is well formed and sets the framework's own version and
transaction exactly when the patch leaves these fields to the framework. -/
theorem patchUpdate_framework (txID : Bytes)
    (valid : validateMutation mongo.toHost m = .ok ()) (isPatch : m.kind = .patch) :
    ∃ elements, mongo.setElements m.patch = some elements ∧
      (¬ (updateOf txID m elements).Conflicting ∧ Carries txID m (updateOf txID m elements).set ↔
        KeepsFramework txID m elements) := by
  obtain ⟨-, paths⟩ := (validateMutation_ok valid).2.2 (remote_of_patch valid isPatch)
  obtain ⟨elements, found, distinct, apart⟩ := patchPaths_apart paths
  have sets {name : Bytes} {value : Value V} (own : (frameworkSet txID m).get name = some value) :
      (updateOf txID m elements).set.get name = some value ↔
        ∀ given, (name, given) ∈ elements → given = value := by
    have overwritten (given : Value V) (member : (name, given) ∈ elements) :
        (updateOf txID m elements).set.get name = some given :=
      get_setAll_mem distinct.of_append_left member
    refine ⟨fun held given member => some.inj ((overwritten given member).symm.trans held), fun same => ?_⟩
    by_cases written : name ∈ elements.map Prod.fst
    · obtain ⟨⟨_, given⟩, member, rfl⟩ := mem_map.mp written
      rw [overwritten given member, same given member]
    · exact (get_setAll written).trans own
  refine ⟨elements, found, fun ⟨sound, version, lastTx⟩ => ?_, fun keeps =>
    ⟨keeps.not_conflicting distinct apart, (sets rfl).mpr keeps.version, (sets rfl).mpr keeps.lastTx⟩⟩
  refine ⟨fun path written name framework inside => sound (.inr ?_), fun path gone own => sound (.inl ?_),
    fun path new tombstone => sound (.inl ?_), (sets rfl).mp version, (sets rfl).mp lastTx⟩
  · exact ⟨name, mem_updateOf_targets.mpr (.inl framework), path,
      mem_updateOf_targets.mpr (.inr written), inside⟩
  · exact ⟨path, mem_updateOf_set.mpr (.inl own), mem_updateOf_unset.mpr (.inr gone)⟩
  · exact ⟨path, mem_updateOf_set.mpr (.inr new), mem_updateOf_unset.mpr (.inl tombstone)⟩

theorem updateOf_apply_get {next : Document V} (applied : (updateOf txID m elements).apply mongo doc = some next) :
    ∀ name ∈ setFields, next.get name = (updateOf txID m elements).set.get name := by
  intro name own
  obtain ⟨value, held⟩ := isSome_iff_exists.mp (mem_keys_iff.mp (mem_updateOf_set.mpr (.inl own)))
  rw [held]
  exact Update.apply_get (plain_framework name (mem_append_left _ own)) applied held

/-- What an admitted patch stores in the framework's fields is what its update sets there.
The update has no conflict and sets the framework's version and transaction exactly when the
patch leaves the framework's fields alone. -/
theorem admitted_patch_applicable (mongo : Mongo V) (txID : Bytes) (m : Mutation)
    (valid : validateMutation mongo.toHost m = .ok ()) (isPatch : m.kind = .patch) :
    ∃ u elements, patchUpdate mongo txID m = some u ∧ mongo.setElements m.patch = some elements ∧
      (∀ doc next, u.apply mongo doc = some next →
        next.get (field "_version") = u.set.get (field "_version") ∧
          next.get (field "_last_tx") = u.set.get (field "_last_tx")) ∧
      (¬ u.Conflicting ∧ Carries txID m u.set ↔ KeepsFramework txID m elements) := by
  obtain ⟨elements, found, exact_⟩ := patchUpdate_framework txID valid isPatch
  refine ⟨_, elements, by rw [patchUpdate, found]; rfl, found, fun doc next applied => ?_, exact_⟩
  have stored := updateOf_apply_get applied
  exact ⟨stored _ (by decide +kernel), stored _ (by decide +kernel)⟩

/-- A database without nested values and a BSON library for documents of one field. -/
def plainMongo : Mongo Unit where
  isEntityKindRemoteCapable _ := false
  remoteSnapshotChecksum _ := 0
  bsonKeys bytes := some [bytes]
  elements bytes := some [(bytes, .int 7)]
  bsonKeys_eq _ := rfl
  encodes_elements := by
    rintro _ _ ⟨⟩ element member
    cases mem_singleton.mp member
    rfl
  nested _ _ _ := none

def mutationOf (kind : MutationKind) (expected : UInt64) (data : Bytes) (patch : FieldPatch) :
    Mutation :=
  { key := { database := [100], scope := 0, resource := [114], id := 7 }, kind
    expectedVersion := expected, nextVersion := expected + 1, mask := 0, schema := 1, codec := []
    data, patch, remote := none }

def patchOf (set : Bytes) (unset : List Bytes) : Mutation :=
  mutationOf .patch 3 [] { setBSON := set, unset }

theorem admitted_patch_applicable_gold :
    ∃ u, ∃ elements : List (Bytes × Value Unit),
      patchUpdate plainMongo [1] (patchOf (field "gold") [field "_deleted"]) = some u ∧
      KeepsFramework [1] (patchOf (field "gold") [field "_deleted"]) elements ∧
      ¬ u.Conflicting ∧ ∀ doc next, u.apply plainMongo doc = some next →
        next.get (field "_version") = some (.int 4) ∧ next.get (field "_last_tx") = some (.text [1]) := by
  obtain ⟨u, elements, built, found, stored, sound⟩ := admitted_patch_applicable plainMongo [1]
    (patchOf (field "gold") [field "_deleted"]) (by decide +kernel) rfl
  have keeps : KeepsFramework [1] (patchOf (field "gold") [field "_deleted"]) elements := by
    cases found
    have version : field "_version" ≠ field "gold" := by decide +kernel
    have lastTx : field "_last_tx" ≠ field "gold" := by decide +kernel
    exact ⟨by decide +kernel, by decide +kernel, by decide +kernel,
      fun _ member => absurd (congrArg Prod.fst (mem_singleton.mp member)) version,
      fun _ member => absurd (congrArg Prod.fst (mem_singleton.mp member)) lastTx⟩
  obtain ⟨apart, version, lastTx⟩ := sound.mpr keeps
  refine ⟨u, elements, built, keeps, apart, fun doc next applied => ?_⟩
  rw [(stored doc next applied).1, (stored doc next applied).2]
  exact ⟨version, lastTx⟩

/-- Admission knows nothing of the framework's fields: a patch that unsets `_version`
conflicts with the version that the update sets, and one that sets it replaces that version. -/
theorem framework_field_admitted :
    validateMutation plainMongo.toHost (patchOf [] [field "_version"]) = .ok () ∧
      (∃ u, patchUpdate plainMongo [1] (patchOf [] [field "_version"]) = some u ∧ u.Conflicting) ∧
      validateMutation plainMongo.toHost (patchOf (field "_version") []) = .ok () ∧
      ∃ u, patchUpdate plainMongo [1] (patchOf (field "_version") []) = some u ∧
        u.set.get (field "_version") = some (.int 7) :=
  ⟨by decide +kernel, ⟨_, rfl, by decide +kernel⟩, by decide +kernel, _, rfl, by decide +kernel⟩

end Roost.Dataengine
