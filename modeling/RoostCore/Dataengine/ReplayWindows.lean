import RoostCore.Dataengine.Record
import RoostCore.Forest
import RoostCore.Run
import RoostCore.Slots

/-! The plan of a parallel projection (`engine/projector_parallel.go`,
`engine/projection_plan.go`): records that share a conflict key stay in one lane, in the order
of the log. -/
namespace Roost.Dataengine
open Go Entity List

/-- A key of one of the kinds, of which the last two keep whole classes of records in order. -/
inductive ConflictKey where
  | entity (id : Int64)
  | receipt (name : Bytes)
  | effect (id : Bytes)
  | transaction (id : Bytes)
  | effectOrder
  | serialRemote
  deriving DecidableEq

abbrev Keyed := CommitRecord × List ConflictKey

structure ConflictScope where
  remoteParallel : Bool
  effectsInWALOrder : Bool

def slash : UInt8 := 47

/-- A record with a mutation of entity zero is a barrier and has no keys. -/
def projectionConflictKeys (scope : ConflictScope) (record : CommitRecord) :
    Option (List ConflictKey) :=
  if record.mutations.any (·.key.id = 0) then none
  else some (
    .transaction record.id.1 ::
    (record.mutations.flatMap fun m =>
      .entity m.key.id :: if m.remote.isSome ∧ !scope.remoteParallel then [.serialRemote] else []) ++
    record.receipts.map (fun receipt => .receipt (receipt.nameSpace ++ slash :: receipt.id)) ++
    record.effects.map (fun effect => .effect effect.id) ++
    if record.effects.length > 0 ∧ scope.effectsInWALOrder then [.effectOrder] else [])

def isLocalBatchRecord (record : CommitRecord) : Bool :=
  !record.mutations.isEmpty && record.effects.isEmpty && record.receipts.isEmpty &&
    record.mutations.all (·.remote.isNone)

def projectsOnFastPath (record : CommitRecord) : Bool :=
  record.mutations.length == 1 && isLocalBatchRecord record

/-- The records from `start` up to `stop`; without lanes they are projected one by one. -/
structure ReplayWindow where
  start : Nat
  stop : Nat
  lanes : List (List Nat)
  fastPath : List Bool
  deriving DecidableEq

/-- The state of the loop that joins the records with a common key. -/
structure Joined where
  forest : Forest
  owner : Table ConflictKey Nat
  last : Table ConflictKey Nat

def Joined.key (s : Joined) (occurrence : ConflictKey × Nat) : Joined :=
  let (key, i) := occurrence
  match s.owner.get key with
  | some first => { s with last := s.last.set key i, forest := s.forest.union first i }
  | none => { s with last := s.last.set key i, owner := s.owner.set key i }

/-- The keys of the records in order, each with the index of its record. -/
def occurrences (keys : List (List ConflictKey)) : List (ConflictKey × Nat) :=
  keys.zipIdx.flatMap fun (keys, i) => keys.map (·, i)

def joinKeys (keys : List (List ConflictKey)) : Joined :=
  (occurrences keys).foldl Joined.key ⟨.singletons, ∅, ∅⟩

def componentSizes (components : List Nat) : Table Nat Nat :=
  components.foldl (fun size c => size.set c ((size.get c).getD 0 + 1)) ∅

/-- The first lane with the least load. -/
def leastLoaded (load : List Nat) : Nat :=
  (range' 1 (load.length - 1)).foldl
    (fun lane candidate => if load.getD candidate 0 < load.getD lane 0 then candidate else lane) 0

structure Lanes where
  lanes : List (List Nat)
  load : List Nat
  laneOf : Table Nat Nat

/-- A record goes to the lane of its component; a new component to the least loaded lane. -/
def Lanes.assign (size : Table Nat Nat) (s : Lanes) (item : Nat × Nat) : Lanes :=
  let (component, i) := item
  match s.laneOf.get component with
  | some lane => { s with lanes := s.lanes.modify lane (· ++ [i]) }
  | none =>
      let lane := leastLoaded s.load
      { lanes := s.lanes.modify lane (· ++ [i])
        load := s.load.modify lane (· + (size.get component).getD 0)
        laneOf := s.laneOf.set component lane }

def planParallelWindow (run : List Keyed) (workers : Nat) :
    Option (List (List Nat) × List Bool) :=
  let joined := joinKeys (run.map Prod.snd)
  let (forest, components) := joined.forest.findAll (range run.length)
  let size := componentSizes components
  if size.pairs.length < 2 then none
  else
    let laneCount := min workers size.pairs.length
    let (_, components) := forest.findAll (range run.length)
    let lanes := components.zipIdx.foldl (Lanes.assign size)
      ⟨replicate laneCount [], replicate laneCount 0, ∅⟩
    some (lanes.lanes, run.zipIdx.map fun ((record, keys), i) =>
      projectsOnFastPath record && keys.all fun key => joined.last.get key = some i)

def appendSerial (windows : List ReplayWindow) (start stop : Nat) : List ReplayWindow :=
  match windows.getLast? with
  | some last =>
      if last.lanes = [] ∧ last.stop = start then windows.dropLast ++ [{ last with stop }]
      else windows ++ [{ start, stop, lanes := [], fastPath := [] }]
  | none => [{ start, stop, lanes := [], fastPath := [] }]

def flushRun (workers : Nat) (windows : List ReplayWindow) (runStart : Nat)
    (run : List Keyed) : List ReplayWindow :=
  if run.isEmpty then windows
  else
    match planParallelWindow run workers with
    | some (lanes, fastPath) =>
        windows ++ [{ start := runStart, stop := runStart + run.length, lanes, fastPath }]
    | none => appendSerial windows runStart (runStart + run.length)

/-- The loop of `planReplayWindows`: the run of records since the last barrier starts at
`runStart`. -/
def planLoop (workers : Nat) (scope : ConflictScope) :
    List CommitRecord → Nat → List Keyed → List ReplayWindow →
      List ReplayWindow
  | [], runStart, run, windows => flushRun workers windows runStart run
  | record :: rest, runStart, run, windows =>
      match projectionConflictKeys scope record with
      | some keys => planLoop workers scope rest runStart (run ++ [(record, keys)]) windows
      | none =>
          let i := runStart + run.length
          planLoop workers scope rest (i + 1) []
            (appendSerial (flushRun workers windows runStart run) i (i + 1))

def planReplayWindows (records : List CommitRecord) (workers : Int) (scope : ConflictScope) :
    List ReplayWindow :=
  if workers ≤ 1 ∨ records.length < 2 then
    [{ start := 0, stop := records.length, lanes := [], fastPath := [] }]
  else planLoop workers.toNat scope records 0 [] []

/-! The records with a common key are joined. -/

section joining
variable {keys : List (List ConflictKey)} {s : Joined} {before rest : List (ConflictKey × Nat)}

theorem mem_occurrences {key : ConflictKey} {i : Nat} :
    (key, i) ∈ occurrences keys ↔ ∃ held, keys[i]? = some held ∧ key ∈ held := by
  simp only [occurrences, mem_flatMap, mem_map, Prod.exists, Prod.mk.injEq,
    mem_zipIdx_iff_getElem?]
  grind

theorem occurrences_sorted (keys : List (List ConflictKey)) :
    (occurrences keys).Pairwise (·.2 ≤ ·.2) := by
  have indices : keys.zipIdx.Pairwise (·.2 < ·.2) := by
    rw [← pairwise_map (f := Prod.snd), zipIdx_map_snd]
    exact pairwise_lt_range' ..
  refine pairwise_flatMap.mpr ⟨fun item _ => ?_, indices.imp fun less => ?_⟩
  · exact pairwise_map.mpr (pairwise_of_forall fun _ _ => Nat.le_refl _)
  · simp only [mem_map]
    rintro _ ⟨_, -, rfl⟩ _ ⟨_, -, rfl⟩
    exact Nat.le_of_lt less

structure Joined.Sound (s : Joined) (before : List (ConflictKey × Nat)) : Prop where
  owned : ∀ o ∈ before, ∃ first, s.owner.get o.1 = some first ∧
    s.forest.root first = s.forest.root o.2
  last : ∀ o ∈ before, ∃ j, s.last.get o.1 = some j ∧ o.2 ≤ j

theorem Joined.Sound.key (sound : s.Sound before)
    {new : ConflictKey × Nat} (sorted : ∀ o ∈ before, o.2 ≤ new.2) :
    (s.key new).Sound (before ++ [new]) := by
  obtain ⟨owned, last⟩ := sound
  obtain ⟨key, i⟩ := new
  have recent : ∀ o ∈ before ++ [(key, i)], ∃ j, (s.last.set key i).get o.1 = some j ∧ o.2 ≤ j := by
    intro o member
    have bound : o.2 ≤ i := by
      rcases mem_snoc.mp member with earlier | rfl
      · exact sorted o earlier
      · exact Nat.le_refl _
    rw [Table.get_set]
    split
    · exact ⟨i, rfl, bound⟩
    · rename_i other
      exact last o ((mem_snoc.mp member).resolve_right fun new => other (congrArg Prod.fst new))
  unfold Joined.key
  dsimp only
  split
  · rename_i first found
    refine ⟨fun o member => ?_, recent⟩
    rcases mem_snoc.mp member with earlier | rfl
    · obtain ⟨owner, known, same⟩ := owned o earlier
      exact ⟨owner, known, Forest.union_mono first i same⟩
    · exact ⟨first, found, s.forest.union_joins first i⟩
  · rename_i fresh
    refine ⟨fun o member => ?_, recent⟩
    rcases mem_snoc.mp member with earlier | rfl
    · obtain ⟨owner, known, same⟩ := owned o earlier
      have other : o.1 ≠ key := fun here => by simp [here, fresh] at known
      exact ⟨owner, by rw [Table.get_set_ne _ _ other, known], same⟩
    · exact ⟨i, Table.get_set_self _ _ _, rfl⟩

theorem Joined.Sound.fold (sound : s.Sound before) (sorted : (before ++ rest).Pairwise (·.2 ≤ ·.2)) :
    (rest.foldl Joined.key s).Sound (before ++ rest) := by
  induction rest generalizing s before with
  | nil => simpa using sound
  | cons new rest ih =>
    have earlier : ∀ o ∈ before, o.2 ≤ new.2 := fun o member =>
      (pairwise_append.mp sorted).2.2 o member new mem_cons_self
    have next := ih (sound.key earlier) (by simpa using sorted)
    simpa using next

theorem joinKeys_sound (keys : List (List ConflictKey)) : (joinKeys keys).Sound (occurrences keys) :=
  have start : Joined.Sound ⟨.singletons, ∅, ∅⟩ [] := ⟨nofun, nofun⟩
  start.fold (occurrences_sorted keys)

end joining

/-! Lanes. -/

section lanes
variable {s : Lanes} {component : Nat → Nat} {laneCount count l : Nat}

theorem leastLoaded_lt {load : List Nat} (some : 0 < load.length) : leastLoaded load < load.length := by
  have inside : ∀ candidate ∈ range' 1 (load.length - 1), candidate < load.length := by
    intro candidate member
    have := mem_range'_1.mp member
    omega
  suffices walk : ∀ (candidates : List Nat) (lane : Nat), (∀ c ∈ candidates, c < load.length) →
      lane < load.length → candidates.foldl
        (fun lane c => if load.getD c 0 < load.getD lane 0 then c else lane) lane < load.length from
    walk _ 0 inside some
  intro candidates
  induction candidates with
  | nil => exact fun lane _ bound => bound
  | cons candidate rest ih =>
    intro lane inside bound
    rw [forall_mem_cons] at inside
    refine ih _ inside.2 ?_
    dsimp only
    split
    · exact inside.1
    · exact bound

/-- The records before `count` are in the lanes of their components. -/
structure Lanes.Sound (s : Lanes) (component : Nat → Nat) (laneCount count : Nat) : Prop where
  lanes : s.lanes.length = laneCount
  load : s.load.length = laneCount
  partition : s.lanes.flatten.Perm (range count)
  ordered : ∀ lane ∈ s.lanes, lane.Pairwise (· < ·)
  placed : ∀ l lane, s.lanes[l]? = some lane → ∀ i ∈ lane, s.laneOf.get (component i) = some l
  inside : ∀ c l, s.laneOf.get c = some l → l < laneCount

/-- A record that goes to the lane `l`, with the lanes of the components then. -/
theorem Lanes.Sound.place
    (sound : s.Sound component laneCount count) {load : List Nat} {laneOf : Table Nat Nat}
    (bound : l < laneCount) (loads : load.length = laneCount)
    (here : laneOf.get (component count) = some l)
    (kept : ∀ c m, s.laneOf.get c = some m → laneOf.get c = some m)
    (inside : ∀ c m, laneOf.get c = some m → m < laneCount) :
    Lanes.Sound ⟨s.lanes.modify l (· ++ [count]), load, laneOf⟩ component laneCount (count + 1) := by
  have below (lane : List Nat) (member : lane ∈ s.lanes) (i : Nat) (held : i ∈ lane) : i < count :=
    mem_range.mp (sound.partition.mem_iff.mp (mem_flatten.mpr ⟨lane, member, held⟩))
  have entry (m : Nat) (lane : List Nat) (found : (s.lanes.modify l (· ++ [count]))[m]? = some lane) :
      ∃ old, s.lanes[m]? = some old ∧ lane = if l = m then old ++ [count] else old := by
    rw [getElem?_modify] at found
    obtain ⟨old, held, rfl⟩ := Option.map_eq_some_iff.mp found
    exact ⟨old, held, by split <;> rfl⟩
  refine ⟨by simp [sound.lanes], loads, ?_, ?_, ?_, inside⟩
  · rw [range_succ]
    exact ((flatten_modify_perm (sound.lanes ▸ bound) count).trans
      (sound.partition.cons count)).trans (perm_append_singleton ..).symm
  · intro lane member
    obtain ⟨m, found⟩ := mem_iff_getElem?.mp member
    obtain ⟨old, held, rfl⟩ := entry m lane found
    have member := mem_of_getElem? held
    split
    · refine pairwise_append.mpr ⟨sound.ordered old member, pairwise_singleton .., ?_⟩
      simpa using below old member
    · exact sound.ordered old member
  · intro m lane found i inLane
    obtain ⟨old, held, rfl⟩ := entry m lane found
    split at inLane
    · rename_i same
      rcases mem_snoc.mp inLane with before | rfl
      · exact kept _ _ (sound.placed m old held i before)
      · rw [here, same]
    · exact kept _ _ (sound.placed m old held i inLane)

theorem Lanes.Sound.assign
    (sound : s.Sound component laneCount count) (size : Table Nat Nat) (lanes : 0 < laneCount) :
    (s.assign size (component count, count)).Sound component laneCount (count + 1) := by
  unfold Lanes.assign
  dsimp only
  split
  · rename_i lane found
    exact sound.place (sound.inside _ _ found) sound.load found (fun _ _ => id) sound.inside
  rename_i fresh
  have bound : leastLoaded s.load < laneCount := sound.load ▸ leastLoaded_lt (sound.load ▸ lanes)
  refine sound.place bound (by simp [sound.load]) (Table.get_set_self _ _ _) (fun c m held => ?_)
    fun c m held => ?_
  · rw [Table.get_set_ne _ _ (fun same => by simp [same, fresh] at held), held]
  · rw [Table.get_set] at held
    split at held
    · cases held
      exact bound
    · exact sound.inside c m held

theorem assign_lanes (size : Table Nat Nat) (component : Nat → Nat) (laneCount : Nat)
    (lanes : 0 < laneCount) (count : Nat) :
    (((range count).map fun i => (component i, i)).foldl (Lanes.assign size)
      ⟨replicate laneCount [], replicate laneCount 0, ∅⟩).Sound component laneCount count := by
  induction count with
  | zero =>
    refine ⟨by simp, by simp, by simp, fun lane member => ?_, fun l lane found => ?_, by simp⟩
    · rw [eq_of_mem_replicate member]
      exact List.Pairwise.nil
    · rw [eq_of_mem_replicate (mem_of_getElem? found)]
      exact nofun
  | succ count ih =>
    rw [range_succ, map_append, foldl_append]
    exact ih.assign size lanes

end lanes

/-- The lanes of consecutive records with their keys: every record is in one lane, a lane is in
the order of the log, records with a common key share a lane, and a record on the fast path has
one local mutation and keys that do not occur again. -/
structure Parallel (items : List Keyed) (workers : Nat)
    (lanes : List (List Nat)) (fastPath : List Bool) : Prop where
  partition : lanes.flatten.Perm (range items.length)
  ordered : ∀ lane ∈ lanes, lane.Pairwise (· < ·)
  bounded : lanes.length ≤ workers
  conflicts : ∀ (i j : Nat) (a b : Keyed) (key : ConflictKey),
    items[i]? = some a → items[j]? = some b → key ∈ a.2 → key ∈ b.2 →
      ∀ lane ∈ lanes, i ∈ lane → j ∈ lane
  fast : ∀ i : Nat, fastPath[i]? = some true → ∃ a : Keyed,
    items[i]? = some a ∧ projectsOnFastPath a.1 = true ∧
      ∀ key ∈ a.2, ∀ (j : Nat) (b : Keyed), i < j →
        items[j]? = some b → key ∉ b.2

theorem planParallelWindow_parallel {items : List Keyed} {workers : Nat}
    {lanes : List (List Nat)} {fastPath : List Bool} (positive : 0 < workers)
    (planned : planParallelWindow items workers = some (lanes, fastPath)) :
    Parallel items workers lanes fastPath := by
  have joined := joinKeys_sound (items.map Prod.snd)
  have occurs {i : Nat} {a : Keyed} {key : ConflictKey}
      (found : items[i]? = some a) (member : key ∈ a.2) :
      (key, i) ∈ occurrences (items.map Prod.snd) :=
    mem_occurrences.mpr ⟨a.2, by simp [found], member⟩
  obtain ⟨-, kept⟩ := (joinKeys (items.map Prod.snd)).forest.findAll_spec (range items.length)
  simp only [planParallelWindow] at planned
  generalize joinKeys (items.map Prod.snd) = plan at joined kept planned
  generalize plan.forest.findAll (range items.length) = first at kept planned
  obtain ⟨components, -⟩ := first.1.findAll_spec (range items.length)
  split at planned
  · contradiction
  rename_i two
  generalize componentSizes first.2 = size at planned two
  have zipped : (first.1.findAll (range items.length)).2.zipIdx =
      (range items.length).map fun i => (first.1.root i, i) := by
    rw [components]
    refine ext_getElem (by simp) fun i _ _ => by simp
  have sound := assign_lanes size first.1.root (min workers size.pairs.length) (by omega)
    items.length
  rw [zipped] at planned
  generalize ((range items.length).map fun i => (first.1.root i, i)).foldl (Lanes.assign size)
    _ = assigned at sound planned
  cases planned
  refine ⟨sound.partition, sound.ordered, by rw [sound.lanes]; exact min_le_left .., ?_, ?_⟩
  · intro i j a b key atI atJ inA inB lane member held
    have same : first.1.root i = first.1.root j := by
      obtain ⟨owner, found, joinedI⟩ := joined.owned _ (occurs atI inA)
      obtain ⟨other, again, joinedJ⟩ := joined.owned _ (occurs atJ inB)
      cases found.symm.trans again
      rw [kept, kept, ← joinedI, joinedJ]
    have bound : j < items.length := (List.getElem?_eq_some_iff.mp atJ).1
    obtain ⟨lane', member', held'⟩ := mem_flatten.mp
      (sound.partition.mem_iff.mpr (mem_range.mpr bound))
    obtain ⟨l, found⟩ := mem_iff_getElem?.mp member
    obtain ⟨l', found'⟩ := mem_iff_getElem?.mp member'
    have one := sound.placed l lane found i held
    rw [same, sound.placed l' lane' found' j held'] at one
    cases one
    cases found.symm.trans found'
    exact held'
  · intro i fast
    simp only [getElem?_map, Option.map_eq_some_iff, getElem?_zipIdx, Nat.zero_add] at fast
    obtain ⟨_, ⟨a, found, rfl⟩, passes⟩ := fast
    simp only [Bool.and_eq_true, all_eq_true, decide_eq_true_eq] at passes
    refine ⟨a, found, passes.1, fun key inA j b later atJ inB => ?_⟩
    obtain ⟨m, last, bound⟩ := joined.last _ (occurs atJ inB)
    cases (passes.2 key inA).symm.trans last
    exact absurd bound (Nat.not_le.mpr later)

/-! Windows. -/

/-- The windows follow each other from `first` up to `last`. -/
def Consecutive (first : Nat) : List ReplayWindow → Nat → Prop
  | [], last => first = last
  | w :: rest, last => w.start = first ∧ w.start ≤ w.stop ∧ Consecutive w.stop rest last

theorem consecutive_append {windows : List ReplayWindow} {w : ReplayWindow} :
    Consecutive first (windows ++ [w]) last ↔
      Consecutive first windows w.start ∧ w.start ≤ w.stop ∧ w.stop = last := by
  induction windows generalizing first with
  | nil => simp [Consecutive, eq_comm]
  | cons head rest ih => simp [Consecutive, ih, and_assoc]

/-- A window without lanes, or one whose lanes are parallel for the records in it. -/
def ReplayWindow.Respects (scope : ConflictScope) (workers : Nat) (records : List CommitRecord)
    (w : ReplayWindow) : Prop :=
  w.lanes = [] ∨ ∃ items : List Keyed,
    (records.drop w.start).take (w.stop - w.start) = items.map Prod.fst ∧
      (∀ item ∈ items, projectionConflictKeys scope item.1 = some item.2) ∧
      Parallel items workers w.lanes w.fastPath

section
variable {scope : ConflictScope} {workers : Nat} {records : List CommitRecord}

def Windows (scope : ConflictScope) (workers : Nat) (records : List CommitRecord)
    (windows : List ReplayWindow) (stop : Nat) : Prop :=
  Consecutive 0 windows stop ∧ ∀ w ∈ windows, w.Respects scope workers records

variable {windows : List ReplayWindow}

theorem Windows.push {w : ReplayWindow}
    (before : Windows scope workers records windows w.start) (inOrder : w.start ≤ w.stop)
    (respects : w.Respects scope workers records) :
    Windows scope workers records (windows ++ [w]) w.stop :=
  ⟨consecutive_append.mpr ⟨before.1, inOrder, rfl⟩,
    forall_mem_append.mpr ⟨before.2, forall_mem_singleton.mpr respects⟩⟩

theorem Windows.serial {start stop : Nat}
    (before : Windows scope workers records windows start) (inOrder : start ≤ stop) :
    Windows scope workers records (appendSerial windows start stop) stop := by
  unfold appendSerial
  split
  · rename_i last found
    split
    · rename_i serial
      rw [← dropLast_append_getLast? last found] at before
      obtain ⟨earlier, inside, here⟩ := consecutive_append.mp before.1
      have shorter : Windows scope workers records windows.dropLast last.start :=
        ⟨earlier, fun w member => before.2 w (mem_append_left _ member)⟩
      exact shorter.push (w := { last with stop }) (by dsimp only; omega) (.inl serial.1)
    · exact before.push (w := ⟨start, stop, [], []⟩) inOrder (.inl rfl)
  · rename_i none
    rw [getLast?_eq_none_iff.mp none] at before
    exact before.push (w := ⟨start, stop, [], []⟩) inOrder (.inl rfl)

theorem Windows.flush {pre rest : List CommitRecord}
    {items : List Keyed} (positive : 0 < workers)
    (before : Windows scope workers records windows pre.length)
    (whole : records = pre ++ items.map Prod.fst ++ rest)
    (keys : ∀ item ∈ items, projectionConflictKeys scope item.1 = some item.2) :
    Windows scope workers records (flushRun workers windows pre.length items)
      (pre.length + items.length) := by
  unfold flushRun
  split
  · rename_i empty
    rw [isEmpty_iff.mp empty]
    exact before
  · split
    · rename_i lanes fastPath planned
      refine before.push (w := ⟨pre.length, pre.length + items.length, lanes, fastPath⟩)
        (Nat.le_add_right ..) (.inr ⟨items, ?_, keys, planParallelWindow_parallel positive planned⟩)
      simp [whole]
    · exact before.serial (Nat.le_add_right ..)

theorem planLoop_windows (positive : 0 < workers) (pre rest : List CommitRecord)
    (items : List Keyed) {windows : List ReplayWindow}
    (whole : records = pre ++ items.map Prod.fst ++ rest)
    (keys : ∀ item ∈ items, projectionConflictKeys scope item.1 = some item.2)
    (before : Windows scope workers records windows pre.length) :
    Windows scope workers records (planLoop workers scope rest pre.length items windows)
      records.length := by
  induction rest generalizing pre items windows with
  | nil =>
    have stop : records.length = pre.length + items.length := by simp [whole]
    rw [stop]
    exact before.flush positive whole keys
  | cons record rest ih =>
    unfold planLoop
    split
    · rename_i held found
      exact ih pre _ (by simp [whole])
        (forall_mem_append.mpr ⟨keys, forall_mem_singleton.mpr found⟩) before
    · have flushed := (before.flush positive whole keys).serial (Nat.le_succ _)
      have length : (pre ++ items.map Prod.fst ++ [record]).length = pre.length + items.length + 1 := by
        simp [Nat.add_assoc]
      have next := ih (pre ++ items.map Prod.fst ++ [record]) [] (by simp [whole]) nofun
        (by rw [length]; exact flushed)
      rwa [length] at next

end

/-- The windows of a plan are consecutive and cover all records, and the lanes of each respect
the conflicts. -/
theorem replay_windows_respect_conflicts (records : List CommitRecord) (workers : Int)
    (scope : ConflictScope) :
    Consecutive 0 (planReplayWindows records workers scope) records.length ∧
      ∀ w ∈ planReplayWindows records workers scope, w.Respects scope workers.toNat records := by
  unfold planReplayWindows
  split
  · exact ⟨⟨rfl, Nat.zero_le _, rfl⟩, fun w member => .inl (by rw [mem_singleton.mp member])⟩
  · exact planLoop_windows (by omega) [] records [] (by simp) nofun ⟨rfl, nofun⟩

/-- A transaction that puts one document of this process. -/
def localPut (txID : UInt8) (id : Int64) : CommitRecord where
  id := ⟨replicate 16 txID, length_replicate⟩
  handler := []
  requestID := []
  createdAt := 0
  durability := .pipelined
  mutations := [
    { key := { database := [100], scope := 0, resource := [114], id }, kind := .put, expectedVersion := 0
      nextVersion := 1, mask := 0, schema := 0, codec := [], data := [], patch := ⟨[], []⟩, remote := none }]
  effects := []
  receipts := []

/-- Two commits of one entity share a lane, and only the later one is on the fast path. -/
theorem replay_windows_respect_conflicts_twoLanes :
    let records := [localPut 1 7, localPut 2 8, localPut 3 7]
    let window : ReplayWindow := ⟨0, 3, [[0, 2], [1]], [false, true, true]⟩
    planReplayWindows records 2 ⟨false, false⟩ = [window] ∧ window.Respects ⟨false, false⟩ 2 records := by
  have planned : planReplayWindows [localPut 1 7, localPut 2 8, localPut 3 7] 2 ⟨false, false⟩ =
      [⟨0, 3, [[0, 2], [1]], [false, true, true]⟩] := by decide +kernel
  exact ⟨planned, (replay_windows_respect_conflicts _ 2 ⟨false, false⟩).2 _ (planned ▸ mem_singleton_self _)⟩

end Roost.Dataengine
