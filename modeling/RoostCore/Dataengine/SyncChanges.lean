import RoostCore.Run

/-! The changes a client has to be sent (`sync_changes.go`). A tree records which places
were written and at which version; what a client has confirmed is pruned by version, and
a rollback puts an older tree back. -/
namespace Roost.Dataengine
open List Option

/-- A field number, and for elements a map key or a list index. -/
structure SyncStep (κ : Type) where
  field : UInt32 := 0
  key : Option κ := none
  deriving DecidableEq

abbrev SyncPath (κ : Type) := List (SyncStep κ)

/-- `replace` is the version at which the place was written as a whole, or zero. -/
inductive SyncChange (κ : Type) where
  | node (replace : Nat) (children : List (SyncStep κ × SyncChange κ))

open SyncChange

namespace SyncChange
variable {κ : Type}

def replace : SyncChange κ → Nat
  | node replace _ => replace

def children : SyncChange κ → List (SyncStep κ × SyncChange κ)
  | node _ children => children

/-- What `prune` reports: there is nothing left to send. -/
def settled (c : SyncChange κ) : Bool := c.replace == 0 && c.children.isEmpty

mutual

def prune (version : Nat) : SyncChange κ → SyncChange κ
  | node replace children =>
      node (if replace ≤ version then 0 else replace) (pruneAll version children)

def pruneAll (version : Nat) : List (SyncStep κ × SyncChange κ) → List (SyncStep κ × SyncChange κ)
  | [] => []
  | (step, child) :: rest =>
      if (prune version child).settled then pruneAll version rest
      else (step, prune version child) :: pruneAll version rest

end

mutual

/-- `countSyncChanges`. -/
def count : SyncChange κ → Nat
  | node _ children => 1 + countAll children

def countAll : List (SyncStep κ × SyncChange κ) → Nat
  | [] => 0
  | (_, child) :: rest => count child + countAll rest

end

variable [DecidableEq κ]

def child (c : SyncChange κ) (step : SyncStep κ) : Option (SyncChange κ) :=
  c.children.lookup step

def setChild (children : List (SyncStep κ × SyncChange κ)) (step : SyncStep κ)
    (child : SyncChange κ) : List (SyncStep κ × SyncChange κ) :=
  match children with
  | [] => [(step, child)]
  | (other, old) :: rest =>
      if other = step then (step, child) :: rest else (other, old) :: setChild rest step child

/-- The loop of `mark`, with the count of nodes. A place that is written as a whole loses
what was recorded below it. -/
def mark (version : Nat) : SyncPath κ → SyncChange κ → Int → SyncChange κ × Int
  | [], c, nodes => (node version [], nodes - (c.count - 1))
  | step :: rest, c, nodes =>
      let next := (c.child step).getD (node 0 [])
      let marked := mark version rest next (if (c.child step).isNone then nodes + 1 else nodes)
      (node c.replace (setChild c.children step marked.1), marked.2)

end SyncChange

def maxSyncChangeNodes : Nat := 4096

structure SyncChanges (κ : Type) where
  version : Nat := 0
  acknowledged : Nat := 0
  root : Option (SyncChange κ) := none
  nodes : Int := 0

structure SyncChangeSnapshot (κ : Type) where
  version : Nat
  root : Option (SyncChange κ)

namespace SyncChanges
variable {κ : Type}

def countRoot (root : Option (SyncChange κ)) : Nat := root.elim 0 count

def pruneRoot (version : Nat) (root : Option (SyncChange κ)) : Option (SyncChange κ) :=
  (root.map (prune version)).filter fun c => !c.settled

def mark [DecidableEq κ] (s : SyncChanges κ) (path : SyncPath κ) : SyncChanges κ :=
  let version := s.version + 1
  let root := s.root.getD (.node 0 [])
  let nodes := if s.root.isNone then 1 else s.nodes
  if maxSyncChangeNodes < nodes + path.length then
    { s with version, root := some (.node version []), nodes := 1 }
  else
    let marked := root.mark version path nodes
    { s with version, root := some marked.1, nodes := marked.2 }

def snapshot (s : SyncChanges κ) : SyncChangeSnapshot κ := ⟨s.version, s.root⟩

def ack (s : SyncChanges κ) (version : Nat) : SyncChanges κ :=
  let acknowledged := max s.acknowledged version
  let root := pruneRoot acknowledged s.root
  { s with acknowledged, root, nodes := countRoot root }

def restore (s : SyncChanges κ) (snapshot : SyncChangeSnapshot κ) : SyncChanges κ :=
  let root := pruneRoot s.acknowledged snapshot.root
  { s with version := max s.version snapshot.version, root, nodes := countRoot root }

end SyncChanges

namespace SyncChange
variable {κ : Type}

mutual

theorem prune_count (version : Nat) : ∀ c : SyncChange κ, (c.prune version).count ≤ c.count
  | node _ children => Nat.add_le_add_left (pruneAll_count version children) 1

theorem pruneAll_count (version : Nat) : ∀ entries : List (SyncStep κ × SyncChange κ),
    countAll (pruneAll version entries) ≤ countAll entries
  | [] => Nat.le_refl _
  | (_, child) :: rest => by
      have first := prune_count version child
      have others := pruneAll_count version rest
      rw [pruneAll, countAll]
      split
      · omega
      · rw [countAll]
        omega

end

variable [DecidableEq κ] {c next : SyncChange κ} {path written : SyncPath κ}
  {entries : List (SyncStep κ × SyncChange κ)} {step : SyncStep κ}

/-- Some place on the path was written as a whole at the version or later. -/
def Covers (version : Nat) : SyncChange κ → SyncPath κ → Prop
  | c, [] => version ≤ c.replace
  | c, step :: rest =>
      version ≤ c.replace ∨ ∃ next, c.child step = some next ∧ Covers version next rest

theorem Covers.whole (whole : version ≤ c.replace) : c.Covers version path := by
  cases path with
  | nil => exact whole
  | cons step rest => exact .inl whole

theorem lookup_setChild (other : SyncStep κ) : (setChild entries step next).lookup other =
    if other = step then some next else entries.lookup other := by
  induction entries with
  | nil => grind [setChild]
  | cons entry rest ih => grind [setChild]

theorem countAll_setChild (entries : List (SyncStep κ × SyncChange κ)) (step : SyncStep κ)
    (next : SyncChange κ) : countAll (setChild entries step next) +
      (entries.lookup step).elim 0 count = countAll entries + next.count := by
  induction entries with
  | nil => simp [setChild, countAll]
  | cons entry rest ih => grind [setChild, countAll]

theorem mark_covers (path : SyncPath κ) (c : SyncChange κ) (nodes : Int) :
    (mark version path c nodes).1.Covers version path := by
  induction path generalizing c nodes with
  | nil => exact Nat.le_refl version
  | cons step rest ih => exact .inr ⟨_, (lookup_setChild step).trans (if_pos rfl), ih ..⟩

/-- What a mark drops lies below a place that it covers as a whole. -/
theorem Covers.mark (covers : c.Covers version path) (older : version ≤ now) (nodes : Int) :
    (mark now written c nodes).1.Covers version path := by
  induction written generalizing c path nodes with
  | nil => exact .whole older
  | cons place below ih =>
    cases path with
    | nil => exact covers
    | cons step rest =>
      rcases covers with whole | ⟨next, held, covers⟩
      · exact .inl whole
      by_cases same : step = place
      · subst same
        refine .inr ⟨_, (lookup_setChild step).trans (if_pos rfl), ?_⟩
        rw [held]
        exact ih covers _
      · exact .inr ⟨next, (lookup_setChild step).trans ((if_neg same).trans held), covers⟩

/-- The count follows the tree, and a mark adds at most one node for each step of its path. -/
theorem mark_nodes (version : Nat) (path : SyncPath κ) (c : SyncChange κ) (nodes : Int) :
    (mark version path c nodes).2 = nodes + (mark version path c nodes).1.count - c.count ∧
      (mark version path c nodes).1.count ≤ c.count + path.length := by
  induction path generalizing c nodes with
  | nil =>
    obtain ⟨replace, entries⟩ := c
    simp only [mark, count, countAll]
    omega
  | cons step rest ih =>
    obtain ⟨replace, entries⟩ := c
    have changed := countAll_setChild entries step
    have one : (node 0 [] : SyncChange κ).count = 1 := rfl
    simp only [mark, child, children, count, length_cons]
    obtain held | ⟨next, held⟩ := eq_none_or_eq_some (entries.lookup step)
    · have follows := ih (node 0 []) (nodes + 1)
      have added := changed (mark version rest (node 0 []) (nodes + 1)).1
      simp only [held, elim_none, getD_none, isNone_none, if_true] at added ⊢
      omega
    · have follows := ih next nodes
      have added := changed (mark version rest next nodes).1
      simp only [held, elim_some, getD_some, isNone_some] at added ⊢
      simp only [Bool.false_eq_true, if_false]
      omega

theorem lookup_pruneAll (held : entries.lookup step = some next)
    (open_ : (next.prune version).settled = false) :
    (pruneAll version entries).lookup step = some (next.prune version) := by
  induction entries with
  | nil => contradiction
  | cons entry rest ih => grind [pruneAll]

/-- What is not acknowledged stays covered, so its branch is not cut off. -/
theorem Covers.prune (covers : c.Covers version path) (later : acknowledged < version) :
    (c.prune acknowledged).Covers version path ∧ (c.prune acknowledged).settled = false := by
  induction path generalizing c with
  | nil =>
    obtain ⟨replace, entries⟩ := c
    simp only [Covers, SyncChange.replace, SyncChange.prune, settled] at covers ⊢
    grind
  | cons step rest ih =>
    obtain ⟨replace, entries⟩ := c
    rcases covers with whole | ⟨next, held, covers⟩
    · simp only [Covers, SyncChange.replace, SyncChange.prune, settled] at whole ⊢
      grind
    obtain ⟨covers, open_⟩ := ih covers
    have found : (pruneAll acknowledged entries).lookup step = _ := lookup_pruneAll held open_
    refine ⟨.inr ⟨_, found, covers⟩, ?_⟩
    cases kept : pruneAll acknowledged entries with
    | nil =>
      rw [kept] at found
      contradiction
    | cons entry rest => simp [settled, prune, children, kept]

end SyncChange

variable {κ : Type} [DecidableEq κ]

/-- A path that was marked, and the version it got. -/
structure Marked (κ : Type) where
  path : SyncPath κ
  version : Nat

/-- A snapshot with the marks and the acknowledgements there were when it was taken. -/
structure Taken (κ : Type) extends SyncChangeSnapshot κ where
  live : List (Marked κ)
  acked : List Nat

/-- The changes, the marks that are not rolled back, what was acknowledged, and the snapshots
so far. -/
structure SyncLog (κ : Type) where
  changes : SyncChanges κ := {}
  live : List (Marked κ) := []
  acked : List Nat := []
  taken : List (Taken κ) := []

inductive SyncCall (κ : Type) where
  | mark (path : SyncPath κ)
  | snapshot
  | ack (version : Nat)
  | restore (index : Nat)

def SyncLog.step (s : SyncLog κ) : SyncCall κ → SyncLog κ
  | .mark path =>
      let changes := s.changes.mark path
      { s with changes, live := ⟨path, changes.version⟩ :: s.live }
  | .snapshot => { s with taken := s.taken ++ [⟨s.changes.snapshot, s.live, s.acked⟩] }
  | .ack version => { s with changes := s.changes.ack version, acked := version :: s.acked }
  | .restore index =>
      match s.taken[index]? with
      | none => s
      | some taken => { s with changes := s.changes.restore taken.1, live := taken.live }

def Covered (root : Option (SyncChange κ)) (m : Marked κ) : Prop :=
  ∃ c, root = some c ∧ c.Covers m.version m.path

structure Keeps (root : Option (SyncChange κ)) (live : List (Marked κ)) (version : Nat)
    (acked : List Nat) : Prop where
  marked : ∀ m ∈ live, 0 < m.version ∧ m.version ≤ version
  covered : ∀ m ∈ live, (∀ a ∈ acked, a < m.version) → Covered root m
  bounded : SyncChanges.countRoot root ≤ maxSyncChangeNodes

theorem Keeps.prune {root : Option (SyncChange κ)} (keeps : Keeps root live version acked) (grown : version ≤ now)
    (more : acked ⊆ later) (upTo : acknowledged = 0 ∨ acknowledged ∈ later) :
    Keeps (SyncChanges.pruneRoot acknowledged root) live now later := by
  refine ⟨fun m member => (keeps.marked m member).imp_right (Nat.le_trans · grown),
    fun m member fresh => ?_, ?_⟩
  · obtain ⟨c, rfl, covers⟩ := keeps.covered m member fun a old => fresh a (more old)
    have newer : acknowledged < m.version := by
      rcases upTo with rfl | told
      · exact (keeps.marked m member).1
      · exact fresh acknowledged told
    obtain ⟨covers, open_⟩ := covers.prune newer
    exact ⟨_, by simp [SyncChanges.pruneRoot, open_], covers⟩
  · refine Nat.le_trans ?_ keeps.bounded
    cases root with
    | none => exact Nat.le_refl _
    | some c =>
      rw [SyncChanges.pruneRoot, map_some, filter_some]
      split
      · exact c.prune_count acknowledged
      · exact Nat.zero_le _

/-- The marks are covered by the tree, and were by the snapshots. -/
structure SyncLog.Sound (s : SyncLog κ) : Prop where
  keeps : Keeps s.changes.root s.live s.changes.version s.acked
  nodes : s.changes.nodes = SyncChanges.countRoot s.changes.root
  acked : s.changes.acknowledged = 0 ∨ s.changes.acknowledged ∈ s.acked
  taken : ∀ t ∈ s.taken, Keeps t.root t.live t.version t.acked ∧ t.acked ⊆ s.acked ∧
    t.version ≤ s.changes.version

variable {s : SyncLog κ}

theorem SyncChanges.mark_version (c : SyncChanges κ) (path : SyncPath κ) :
    (c.mark path).version = c.version + 1 := by
  rw [SyncChanges.mark]
  generalize (if c.root.isNone then 1 else c.nodes) = nodes
  split <;> rfl

theorem SyncLog.version_le (s : SyncLog κ) (call : SyncCall κ) :
    s.changes.version ≤ (s.step call).changes.version := by
  cases call with
  | mark path => exact s.changes.mark_version path ▸ Nat.le_succ _
  | snapshot | ack version => exact Nat.le_refl _
  | restore index =>
    rw [SyncLog.step]
    split
    · exact Nat.le_refl _
    · exact Nat.le_max_left _ _

theorem SyncLog.Sound.mark (sound : s.Sound) (path : SyncPath κ) : (s.step (.mark path)).Sound := by
  obtain ⟨⟨marked, covered, bounded⟩, nodes, acked, taken⟩ := sound
  generalize base : s.changes.root.getD (.node 0 []) = root
  have counted : (if s.changes.root.isNone then 1 else s.changes.nodes) = root.count := by
    rw [nodes, ← base]
    cases s.changes.root <;> rfl
  have kept (c : SyncChange κ) (now : c.Covers (s.changes.version + 1) path)
      (older : ∀ m ∈ s.live, root.Covers m.version m.path → c.Covers m.version m.path)
      (small : c.count ≤ maxSyncChangeNodes) :
      Keeps (some c) (⟨path, s.changes.version + 1⟩ :: s.live) (s.changes.version + 1) s.acked := by
    refine ⟨fun m member => ?_, fun m member fresh => ⟨c, rfl, ?_⟩, small⟩
    · rcases mem_cons.mp member with rfl | old
      · exact ⟨Nat.succ_pos _, Nat.le_refl _⟩
      · exact (marked m old).imp_right Nat.le_succ_of_le
    · rcases mem_cons.mp member with rfl | old
      · exact now
      obtain ⟨before, held, covers⟩ := covered m old fresh
      rw [held] at base
      exact older m old (base ▸ covers)
  have taken (t : Taken κ) (member : t ∈ s.taken) := (taken t member).imp_right fun old =>
    old.imp_right (Nat.le_succ_of_le : _ → t.version ≤ s.changes.version + 1)
  rw [SyncLog.step, SyncChanges.mark]
  rw [base, counted]
  split
  · refine ⟨kept _ (.whole (Nat.le_refl _)) (fun m member _ => .whole ?_) ?_, rfl, acked, taken⟩
    · exact Nat.le_succ_of_le (marked m member).2
    · exact Nat.le_of_ble_eq_true rfl
  · obtain ⟨follows, bound⟩ := root.mark_nodes (s.changes.version + 1) path root.count
    refine ⟨kept _ (root.mark_covers path _) (fun m member covers =>
      covers.mark (Nat.le_succ_of_le (marked m member).2) _) (by omega), ?_, acked, taken⟩
    dsimp only [SyncChanges.countRoot, Option.elim]
    omega

theorem SyncLog.Sound.step (sound : s.Sound) (call : SyncCall κ) : (s.step call).Sound := by
  cases call with
  | mark path => exact sound.mark path
  | snapshot =>
    refine ⟨sound.keeps, sound.nodes, sound.acked, fun t member => ?_⟩
    rcases mem_append.mp member with old | now
    · exact sound.taken t old
    · cases mem_singleton.mp now
      exact ⟨sound.keeps, List.Subset.refl _, Nat.le_refl _⟩
  | ack version =>
    have upTo : max s.changes.acknowledged version = 0 ∨
        max s.changes.acknowledged version ∈ version :: s.acked := by
      rcases Nat.le_total s.changes.acknowledged version with newer | older
      · rw [Nat.max_eq_right newer]
        exact .inr mem_cons_self
      · rw [Nat.max_eq_left older]
        exact sound.acked.imp_right (mem_cons_of_mem _)
    refine ⟨sound.keeps.prune (Nat.le_refl _) (subset_cons_self ..) upTo, rfl, upTo,
      fun t member => ?_⟩
    obtain ⟨keeps, older⟩ := sound.taken t member
    exact ⟨keeps, older.imp_left (subset_cons_of_subset version)⟩
  | restore index =>
    rw [SyncLog.step]
    split
    · exact sound
    rename_i t found
    obtain ⟨keeps, older⟩ := sound.taken t (mem_of_getElem? found)
    exact ⟨keeps.prune (Nat.le_max_right _ _) older.1 sound.acked, rfl, sound.acked,
      fun u member => (sound.taken u member).imp_right fun old =>
        old.imp_right (Nat.le_trans · (Nat.le_max_left _ _))⟩

/-- Whatever the order of marks, snapshots, acknowledgements and rollbacks: a mark that is
newer than every acknowledged version is covered by the tree, and by the snapshots it was
there for; a mark gets a version above those of all earlier marks and snapshots; the nodes
are counted and bounded, and the version never goes back. -/
theorem sync_changes_covered (calls more : List (SyncCall κ)) :
    let s := run SyncLog.step {} calls
    (∀ m ∈ s.live, (∀ a ∈ s.acked, a < m.version) → Covered s.changes.root m) ∧
      (∀ t ∈ s.taken, ∀ m ∈ t.live, m.version ≤ t.version ∧
        ((∀ a ∈ t.acked, a < m.version) → Covered t.root m)) ∧
      (∀ path, (∀ m ∈ s.live, m.version < (s.changes.mark path).version) ∧
        ∀ t ∈ s.taken, t.version < (s.changes.mark path).version) ∧
      s.changes.nodes = SyncChanges.countRoot s.changes.root ∧
      s.changes.nodes ≤ maxSyncChangeNodes ∧
      s.changes.version ≤ (run SyncLog.step s more).changes.version := by
  have start : ({} : SyncLog κ).Sound :=
    ⟨⟨by simp, by simp, Nat.zero_le _⟩, rfl, .inl rfl, by simp⟩
  have sound := invariant (P := SyncLog.Sound) (fun _ call sound => sound.step call) start calls
  refine ⟨sound.keeps.covered, fun t member m live => ?_, fun path => ?_, sound.nodes, ?_, ?_⟩
  · have keeps := (sound.taken t member).1
    exact ⟨(keeps.marked m live).2, keeps.covered m live⟩
  · rw [SyncChanges.mark_version]
    exact ⟨fun m live => Nat.lt_succ_of_le (sound.keeps.marked m live).2,
      fun t member => Nat.lt_succ_of_le (sound.taken t member).2.2⟩
  · rw [sound.nodes]
    exact Int.ofNat_le.mpr sound.keeps.bounded
  · generalize run SyncLog.step {} calls = s
    exact invariant (P := fun t : SyncLog κ => s.changes.version ≤ t.changes.version)
      (fun t call grown => Nat.le_trans grown (t.version_le call)) (Nat.le_refl _) more

/-- The first mark is acknowledged, the second one is not, and a third one is rolled back. -/
theorem sync_changes_covered_rollback :
    let s := run SyncLog.step {} [.mark [{ field := 1 }], .snapshot, .mark [{ field := 2, key := some 7 }],
      .snapshot, .mark [], .ack 1, .restore 1]
    s.acked = [1] ∧ s.live.map Marked.version = [2, 1] ∧ s.changes.version = 3 ∧ s.changes.nodes = 2 ∧
      Covered s.changes.root ⟨[{ field := 2, key := some 7 }], 2⟩ := by
  refine ⟨rfl, rfl, rfl, rfl, ?_⟩
  exact (sync_changes_covered _ []).1 _ (.head _) (by decide)

end Roost.Dataengine
