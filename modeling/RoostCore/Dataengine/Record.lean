import RoostCore.Entity.Remote
import RoostCore.Go.Table

/-! The commit record that is admitted to the log, and its validation
(`dataengine/mutation_types.go`, `dataengine/validate.go`). -/
namespace Roost.Dataengine
open Go Entity

abbrev Durability := UInt8

def Durability.pipelined : Durability := 3

abbrev MutationKind := UInt8

def MutationKind.put : MutationKind := 1

def MutationKind.patch : MutationKind := 2

def MutationKind.delete : MutationKind := 3

structure DocumentKey where
  database : Bytes
  scope : DatabaseScope
  resource : Bytes
  id : Int64
  deriving DecidableEq

structure FieldPatch where
  setBSON : Bytes
  unset : List Bytes
  deriving DecidableEq

def FieldPatch.empty (p : FieldPatch) : Bool := p.setBSON.isEmpty && p.unset.isEmpty

structure Mutation where
  key : DocumentKey
  kind : MutationKind
  expectedVersion : UInt64
  nextVersion : UInt64
  mask : UInt64
  schema : UInt32
  codec : Bytes
  data : Bytes
  patch : FieldPatch
  remote : Option RemoteCommit
  deriving DecidableEq

abbrev EffectDelivery := UInt8

def EffectDelivery.reliable : EffectDelivery := 0

structure Effect where
  id : Bytes
  topic : Bytes
  key : Bytes
  payload : Bytes
  headers : Table Bytes Bytes
  availableAt : Int64
  delivery : EffectDelivery

structure Receipt where
  nameSpace : Bytes
  id : Bytes
  digest : Bytes
  payload : Bytes
  expiresAt : Int64
  deriving DecidableEq

structure CommitRecord where
  id : TransactionID
  handler : Bytes
  requestID : Bytes
  createdAt : Int64
  durability : Durability
  mutations : List Mutation
  effects : List Effect
  receipts : List Receipt

def CommitRecord.empty (r : CommitRecord) : Bool :=
  r.mutations.isEmpty && r.effects.isEmpty && r.receipts.isEmpty

/-! Two records are the same when their maps have the same entries. A slice that is nil is
an empty one here, so this is equality up to nil and empty. -/

structure Effect.Same (a b : Effect) : Prop where
  id : a.id = b.id
  topic : a.topic = b.topic
  key : a.key = b.key
  payload : a.payload = b.payload
  headers : ∀ key, a.headers.get key = b.headers.get key
  availableAt : a.availableAt = b.availableAt
  delivery : a.delivery = b.delivery

structure CommitRecord.Same (a b : CommitRecord) : Prop where
  id : a.id = b.id
  handler : a.handler = b.handler
  requestID : a.requestID = b.requestID
  createdAt : a.createdAt = b.createdAt
  durability : a.durability = b.durability
  mutations : a.mutations = b.mutations
  effects : List.Forall₂ Effect.Same a.effects b.effects
  receipts : a.receipts = b.receipts

/-- The BSON library comes with the process: the keys of a document's elements, unless it
is not a valid document. -/
structure Host extends Entity.Registry where
  bsonKeys : Bytes → Option (List Bytes)

inductive MutationFault
  | documentKey
  | version
  | remote (fault : RemoteFault)
  | mutationKind
  | put
  | patch
  | delete
  | setBSON
  | patchPath (path : Bytes)
  | duplicatePath (path : Bytes)
  | overlappingPaths
  deriving DecidableEq

inductive RecordFault
  | zeroTransaction
  | mutation (index : Nat) (fault : MutationFault)
  | effect (index : Nat)
  | delivery (index : Nat) (topic : Bytes) (delivery : EffectDelivery)
  | receipt (index : Nat)
  deriving DecidableEq

def dot : UInt8 := 46

def dollar : UInt8 := 36

def validPatchPath (path : Bytes) : Bool :=
  path ≠ [] && 0 ∉ path &&
    (path.splitOn dot).all fun segment => segment ≠ [] && segment.head? ≠ some dollar

/-- The closure `add` of `validatePatchPaths`, with the paths that it has taken. -/
def addPath (paths : List Bytes) (path : Bytes) : Except MutationFault (List Bytes) :=
  if !validPatchPath path then .error (.patchPath path)
  else if path ∈ paths then .error (.duplicatePath path)
  else .ok (path :: paths)

/-- Some path continues another one after a dot. -/
def overlapping (paths : List Bytes) : Bool :=
  paths.any fun path => (List.range path.length).any fun i =>
    path[i]? = some dot && paths.contains (path.take i)

/-- The pair that an overlap is reported with depends on the order of a map and is left
out. -/
def validatePatchPaths (host : Host) (patch : FieldPatch) : Except MutationFault Unit := do
  let unset ← patch.unset.foldlM addPath []
  let paths ←
    if patch.setBSON = [] then pure unset
    else match host.bsonKeys patch.setBSON with
      | none => throw .setBSON
      | some keys => keys.foldlM addPath unset
  if overlapping paths then throw .overlappingPaths

/-- `ValidateMutation` for a mutation whose contents are those of a remote commit. -/
def validateRemoteMutation (host : Host) (m : Mutation) (remote : RemoteCommit) :
    Except MutationFault Unit := do
  match remote.validate host.toRegistry with
  | .error fault => throw (.remote fault)
  | .ok () => pure ()
  if remote.entityID ≠ m.key.id ∨ remote.baseVersion ≠ m.expectedVersion ∨
      remote.nextVersion ≠ m.nextVersion then
    throw .version
  if (remote.delete ∧ m.kind ≠ .delete) ∨ (!remote.delete ∧ m.kind ≠ .put) ∨ m.data ≠ [] ∨
      !m.patch.empty then
    throw .mutationKind

/-- The switch of `ValidateMutation` over the kind. -/
def validateContents (m : Mutation) : Except MutationFault Unit :=
  if m.kind = .put then
    if m.data = [] ∨ !m.patch.empty then .error .put else .ok ()
  else if m.kind = .patch then
    if m.expectedVersion = 0 ∨ m.data ≠ [] ∨ m.patch.empty then .error .patch else .ok ()
  else if m.kind = .delete then
    if m.data ≠ [] ∨ !m.patch.empty then .error .delete else .ok ()
  else .error .mutationKind

def validateMutation (host : Host) (m : Mutation) : Except MutationFault Unit := do
  if m.key.id = 0 ∨ m.key.resource = [] ∨ (m.key.database = [] ∧ m.remote = none) then
    throw .documentKey
  if m.nextVersion = 0 ∨ m.nextVersion ≠ m.expectedVersion + 1 then throw .version
  match m.remote with
  | some remote => validateRemoteMutation host m remote
  | none =>
      validateContents m
      validatePatchPaths host m.patch

def validateEffect (item : Effect × Nat) : Except RecordFault Unit :=
  let (effect, index) := item
  if effect.id = [] ∨ effect.topic = [] then .error (.effect index)
  else if effect.delivery ≠ .reliable then
    .error (.delivery index effect.topic effect.delivery)
  else .ok ()

def validateReceipt (item : Receipt × Nat) : Except RecordFault Unit :=
  let (receipt, index) := item
  if receipt.nameSpace = [] ∨ receipt.id = [] then .error (.receipt index) else .ok ()

def validateCommitRecord (host : Host) (record : CommitRecord) : Except RecordFault Unit := do
  if record.id.isZero then throw .zeroTransaction
  record.mutations.zipIdx.forM fun (m, index) =>
    (validateMutation host m).mapError (.mutation index)
  record.effects.zipIdx.forM validateEffect
  record.receipts.zipIdx.forM validateReceipt

end Roost.Dataengine
