import RoostCore.Nest.GroupTransition

/-! Exclusion of lock groups. The members of a group stay its members, and only its own
handler runs on them, while a handler holds the group. The locks give this for handlers
that were dispatched; broadcasts take no group lock, and a join does not take the lock of
the group it leaves. -/
namespace Roost.Nest.LockGroup
open List hiding after all drop take
open World (fresh step setTask_group setTask_groupLock setTask_entityLock)

/-- The owner of a lock is the one actor that has it in its list. -/
structure Locks (lock : Nat → Option Nat) (held : Nat → List Nat) : Prop where
  owner : ∀ x i, lock x = some i ↔ x ∈ held i
  nodup : ∀ i, (held i).Nodup

namespace Locks
variable {lock : Nat → Option Nat} {held : Nat → List Nat}

theorem unique (locks : Locks lock held) (mine : x ∈ held i) (other : x ∈ held j) : i = j :=
  Option.some.inj (((locks.owner x i).mpr mine).symm.trans ((locks.owner x j).mpr other))

theorem take (locks : Locks lock held) (i : Nat) (free : lock x = none) :
    Locks (upd lock x (some i)) (upd held i (x :: held i)) := by
  have unheld : ∀ j, x ∉ held j := by
    intro j member
    rw [← locks.owner x j, free] at member
    contradiction
  constructor
  · intro y j
    by_cases here : y = x <;> by_cases same : j = i
    · subst here same
      simp
    · subst here
      simp [upd_ne _ _ same, unheld j, Ne.symm same]
    · subst same
      simp [upd_ne _ _ here, here, locks.owner]
    · simp [upd_ne _ _ here, upd_ne _ _ same, locks.owner]
  · intro j
    by_cases same : j = i
    · subst same
      simp [unheld j, locks.nodup j]
    · rw [upd_ne _ _ same]
      exact locks.nodup j

theorem drop (locks : Locks lock held) (mine : x ∈ held i) :
    Locks (upd lock x none) (upd held i ((held i).erase x)) := by
  constructor
  · intro y j
    by_cases here : y = x
    · subst here
      by_cases same : j = i
      · subst same
        simp [(locks.nodup j).not_mem_erase]
      · have foreign : y ∉ held j := fun member => same (locks.unique member mine)
        simp [upd_ne _ _ same, foreign]
    · by_cases same : j = i
      · subst same
        simp [upd_ne _ _ here, locks.owner, mem_erase_of_ne here]
      · simp [upd_ne _ _ here, upd_ne _ _ same, locks.owner]
  · intro j
    by_cases same : j = i
    · subst same
      simpa using (locks.nodup j).erase x
    · rw [upd_ne _ _ same]
      exact locks.nodup j

end Locks

theorem upd_comp (f : α → β) (g : Nat → α) (i : Nat) (value : α) :
    (fun j => f (upd g i value j)) = upd (fun j => f (g j)) i (f value) := by
  funext j
  simp only [upd]
  split <;> rfl

/-- The groups that a transition of `req` needs to hold. -/
def Request.needs (req : Request) (group : Nat → Nat) : List Nat :=
  transitionLockGroupIDs (group req.entity) req.target req.state

/-- What a worker holds and knows at each of its places. -/
def Fits (group : Nat → Nat) (groups entities : List Nat) : Task → Prop
  | .capture job todo snaps => snaps.map Snapshot.entity ++ todo = job.targets
  | .lockGroup job snaps g => snaps.map Snapshot.entity = job.targets ∧ resolveDispatchGroupID 0 snaps = some g
  | .lockEntities job snaps g todo =>
    snaps.map Snapshot.entity = job.targets ∧ resolveDispatchGroupID 0 snaps = some g ∧ (g ≠ 0 → g ∈ groups) ∧
      ∀ e ∈ job.targets, e ∈ entities ∨ e ∈ todo
  | .validate job snaps g =>
    snaps.map Snapshot.entity = job.targets ∧ resolveDispatchGroupID 0 snaps = some g ∧ (g ≠ 0 → g ∈ groups) ∧
      ∀ e ∈ job.targets, e ∈ entities
  | .handling job g => (g ≠ 0 → g ∈ groups) ∧ ∀ e ∈ job.targets, e ∈ entities ∧ (group e = 0 ∨ group e = g)
  | .broadcasting e => e ∈ entities ∧ group e = 0
  | .lockGroups req todo => ∀ g ∈ req.needs group, g ∈ groups ∨ g ∈ todo
  | .lockEntity req => ∀ g ∈ req.needs group, g ∈ groups
  | .settle req => (∀ g ∈ req.needs group, g ∈ groups) ∧ req.entity ∈ entities
  | .idle | .broadcastLock _ | .transition _ | .release _ => True

/-- What a worker knows rests on the entities it has locked and the one it moves. -/
theorem Fits.frame (fits : Fits group groups entities task)
    (locked : ∀ e ∈ entities, after e = group e)
    (moving : ∀ req, task.request = some req → after req.entity = group req.entity) :
    Fits after groups entities task := by
  cases task with
  | handling job g =>
    refine ⟨fits.1, fun e target => ?_⟩
    rw [locked e (fits.2 e target).1]
    exact fits.2 e target
  | broadcasting e =>
    refine ⟨fits.1, ?_⟩
    rw [locked e fits.1]
    exact fits.2
  | lockGroups req todo | lockEntity req | settle req =>
    have same := moving req rfl
    simp only [Fits, Request.needs] at fits ⊢
    rw [same]
    exact fits
  | idle | capture | lockGroup | lockEntities | validate | broadcastLock | transition | release => exact fits

/-- The snapshots resolve to a group when every target is in it or in none. -/
theorem resolve_covers (resolved : resolveDispatchGroupID start snaps = some g) :
    (start ≠ 0 → g = start) ∧ ∀ snap ∈ snaps, snap.group = 0 ∨ snap.group = g := by
  induction snaps generalizing start with
  | nil =>
    obtain rfl : start = g := Option.some.inj resolved
    exact ⟨fun _ => rfl, by simp⟩
  | cons snap rest ih =>
    simp only [resolveDispatchGroupID] at resolved
    split at resolved
    · rename_i alone
      obtain ⟨first, others⟩ := ih resolved
      exact ⟨first, forall_mem_cons.mpr ⟨.inl alone, others⟩⟩
    rename_i member
    split at resolved
    · rename_i zero
      obtain ⟨first, others⟩ := ih resolved
      exact ⟨fun start => absurd zero start, forall_mem_cons.mpr ⟨.inr (first member).symm, others⟩⟩
    · rename_i positive
      split at resolved
      · rename_i same
        obtain ⟨first, others⟩ := ih resolved
        exact ⟨first, forall_mem_cons.mpr ⟨.inr (by rw [first positive, same]), others⟩⟩
      · contradiction

theorem validate_unchanged (valid : validateDispatchGroupSnapshots w snaps = .unchanged) :
    ∀ snap ∈ snaps, w.group snap.entity = snap.group := by
  induction snaps with
  | nil => simp
  | cons snap rest ih =>
    simp only [validateDispatchGroupSnapshots] at valid
    split at valid
    · contradiction
    split at valid
    · rename_i same
      refine forall_mem_cons.mpr ⟨?_, ih valid⟩
      exact congrArg Snapshot.group same
    · contradiction

/-- Joins are asked for outside of groups, and broadcasts reach entities outside of groups. -/
def Disciplined (w : World) : Input → Prop
  | .request e .join _ _ _ _ => w.group e = 0
  | .advance i _ =>
    match (w.workers i).task with
    | .broadcastLock e => w.group e = 0
    | _ => True
  | _ => True

instance (w : World) (input : Input) : Decidable (Disciplined w input) := by
  induction input using Input.casesOn <;> unfold Disciplined
  all_goals repeat' split
  all_goals infer_instance

def Known (w : World) (k : Worker) : Act → Prop
  | .become task => Fits w.group k.groups k.entities task
  | .takeGroup g task => Fits w.group (g :: k.groups) k.entities task
  | .takeEntity e task => Fits w.group k.groups (e :: k.entities) task
  | .dropGroup _ | .dropEntity _ => ∃ next, k.task = .release next
  | .retry _ | .stale _ | .update _ => True

theorem taken_or_ahead {held : List Nat} (covered : x ∈ held ∨ x ∈ e :: todo) : x ∈ e :: held ∨ x ∈ todo := by
  rcases covered with locked | ahead
  · exact .inl (mem_cons_of_mem _ locked)
  rcases mem_cons.mp ahead with rfl | later
  · exact .inl mem_cons_self
  · exact .inr later

theorem advance_known (fits : Fits w.group k.groups k.entities k.task)
    (apart : ∀ e, k.task = .broadcastLock e → w.group e = 0) : Known w k (advance w k) := by
  obtain ⟨groups, entities, task⟩ := k
  cases task with
  | idle => trivial
  | capture job todo snaps =>
    cases todo with
    | nil =>
      have all : snaps.map Snapshot.entity = job.targets := by simpa [Fits] using fits
      simp only [advance]
      split
      · trivial
      · rename_i resolved
        exact ⟨all, resolved, by simp, fun e target => .inr target⟩
      · rename_i resolved
        exact ⟨all, resolved⟩
    | cons e todo => simpa [advance, Known, Fits, World.snapshot] using fits
  | lockGroup job snaps g =>
    exact keeps_if (P := Known w _) trivial fun _ =>
      ⟨fits.1, fits.2, fun _ => mem_cons_self, fun e target => .inr target⟩
  | lockEntities job snaps g todo =>
    obtain ⟨all, resolved, held, covered⟩ := fits
    cases todo with
    | nil => exact ⟨all, resolved, held, by simpa using covered⟩
    | cons e todo =>
      simp only [advance]
      split
      · rename_i again
        refine ⟨all, resolved, held, fun f target => (taken_or_ahead (covered f target)).imp_left fun taken => ?_⟩
        exact (mem_cons.mp taken).elim (fun here => here ▸ again) id
      · exact keeps_if (P := Known w _) trivial fun _ =>
          ⟨all, resolved, held, fun f target => taken_or_ahead (covered f target)⟩
  | validate job snaps g =>
    obtain ⟨all, resolved, held, covered⟩ := fits
    simp only [advance]
    split
    · rename_i valid
      refine ⟨held, fun e target => ⟨covered e target, ?_⟩⟩
      rw [← all] at target
      obtain ⟨snap, member, rfl⟩ := mem_map.mp target
      rw [validate_unchanged valid snap member]
      exact (resolve_covers resolved).2 snap member
    · trivial
    · split <;> trivial
  | handling job g => trivial
  | broadcastLock e =>
    exact keeps_if (P := Known w _) trivial fun _ => ⟨mem_cons_self, apart e rfl⟩
  | broadcasting e => trivial
  | transition req => exact fun g needed => .inr needed
  | lockGroups req todo =>
    cases todo with
    | nil => simpa [advance, Known, Fits] using fits
    | cons g todo =>
      exact keeps_if (P := Known w _) trivial fun _ other needed => taken_or_ahead (fits other needed)
  | lockEntity req => exact keeps_if (P := Known w _) trivial fun _ => ⟨fits, mem_cons_self⟩
  | settle req =>
    simp only [advance]
    split <;> trivial
  | release next =>
    simp only [advance]
    split
    · exact ⟨next, rfl⟩
    · exact ⟨next, rfl⟩
    split
    · trivial
    · rfl

/-- The locks, what every worker knows, and the discipline of the joins on their way. -/
structure Exclusive (w : World) : Prop extends Marked w where
  groupLocks : Locks w.groupLock fun i => (w.workers i).groups
  entityLocks : Locks w.entityLock fun i => (w.workers i).entities
  fits : ∀ i, Fits w.group (w.workers i).groups (w.workers i).entities (w.workers i).task
  joins : ∀ m ∈ w.messages, m.2.state = .join → w.group m.2.entity = 0

section moves
variable {w v : World} {i : Nat} {req : Request} {refused : Bool}

theorem Exclusive.moved (exc : Exclusive w) (i : Nat) (k : Worker)
    (workers : v.workers = upd w.workers i k) (group : v.group = w.group) (messages : v.messages = w.messages)
    (groupLocks : Locks v.groupLock (upd (fun j => (w.workers j).groups) i k.groups))
    (entityLocks : Locks v.entityLock (upd (fun j => (w.workers j).entities) i k.entities))
    (fits : Fits w.group k.groups k.entities k.task) (marked : Marked v) : Exclusive v := by
  refine { toMarked := marked, groupLocks := ?_, entityLocks := ?_, fits := ?_, joins := ?_ }
  · rw [workers, upd_comp Worker.groups]
    exact groupLocks
  · rw [workers, upd_comp Worker.entities]
    exact entityLocks
  · intro j
    rw [workers, group]
    by_cases same : j = i
    · rw [same, upd_self]
      exact fits
    · rw [upd_ne _ _ same]
      exact exc.fits j
  · rw [messages, group]
    exact exc.joins

theorem upd_id (f : Nat → α) (i : Nat) : upd f i (f i) = f := upd_same rfl

theorem Exclusive.become (exc : Exclusive w)
    (fits : Fits w.group (w.workers i).groups (w.workers i).entities task)
    (marked : Marked (w.setTask i task)) : Exclusive (w.setTask i task) := by
  refine exc.moved i { w.workers i with task } rfl rfl rfl ?_ ?_ fits marked
  · rw [upd_id fun j => (w.workers j).groups]
    exact exc.groupLocks
  · rw [upd_id fun j => (w.workers j).entities]
    exact exc.entityLocks

theorem Exclusive.posted (exc : Exclusive w) (workers : v.workers = w.workers) (group : v.group = w.group)
    (groupLock : v.groupLock = w.groupLock) (entityLock : v.entityLock = w.entityLock)
    (joins : ∀ m ∈ v.messages, m.2.state = .join → w.group m.2.entity = 0) (marked : Marked v) : Exclusive v := by
  refine { toMarked := marked, groupLocks := ?_, entityLocks := ?_, fits := ?_, joins := ?_ }
  · rw [groupLock, workers]
    exact exc.groupLocks
  · rw [entityLock, workers]
    exact exc.entityLocks
  · rw [group, workers]
    exact exc.fits
  · rw [group]
    exact joins

theorem Exclusive.joins_replace (exc : Exclusive w) (present : x ∈ w.messages)
    (state : y.2.state = x.2.state) (entity : y.2.entity = x.2.entity) :
    ∀ m ∈ w.messages.erase x ++ [y], m.2.state = .join → w.group m.2.entity = 0 := by
  intro m member join
  rcases mem_snoc.mp member with old | rfl
  · exact exc.joins m (mem_of_mem_erase old) join
  · rw [entity]
    exact exc.joins x present (state ▸ join)

theorem ends_joins (exc : Exclusive w) (present : (Place.executing i, req) ∈ w.messages)
    (ends : Ends w i req refused v) : ∀ m ∈ v.messages, m.2.state = .join → v.group m.2.entity = 0 := by
  cases ends with
  | delayed => exact exc.joins_replace present rfl rfl
  | lost | failed => exact fun m member join => exc.joins m (mem_of_mem_erase member) join
  | done =>
    intro m member join
    simp only
    rw [upd_ne _ _ (exc.apart present member)]
    exact exc.joins m (mem_of_mem_erase member) join

/-- An end of a transition reaches the group of its own entity alone, once it has settled. -/
theorem Ends.frame (ends : Ends w i req refused v) :
    v.groupLock = w.groupLock ∧ v.entityLock = w.entityLock ∧ v.workers = w.workers ∧
      (v.group = w.group ∨ (w.workers i).task = .settle req ∧
        v.group = upd w.group req.entity (World.Request.destination req)) := by
  cases ends with
  | delayed | lost | failed => exact ⟨rfl, rfl, rfl, .inl rfl⟩
  | done settles => exact ⟨rfl, rfl, rfl, .inr ⟨settles, rfl⟩⟩

theorem Exclusive.ends (exc : Exclusive w) (executes : (w.workers i).task.request = some req)
    (ends : Ends w i req refused v) : Exclusive (v.setTask i (.release none)) := by
  have present := (exc.executing i req).mpr executes
  have marked := exc.toMarked.ends executes ends
  obtain ⟨groupLock, entityLock, workers, group⟩ := ends.frame
  refine { toMarked := marked, groupLocks := ?_, entityLocks := ?_, fits := ?_, joins := ?_ }
  · simp only [setTask_groupLock, setTask_groups, groupLock, workers]
    exact exc.groupLocks
  · simp only [setTask_entityLock, setTask_entities, entityLock, workers]
    exact exc.entityLocks
  · intro j
    by_cases same : j = i
    · subst same
      rw [setTask_task]
      trivial
    rw [setTask_other _ _ _ same, workers]
    rcases group with unchanged | ⟨settling, moved⟩
    · rw [setTask_group, unchanged]
      exact exc.fits j
    have mine : req.entity ∈ (w.workers i).entities := by
      have fits := exc.fits i
      rw [settling] at fits
      exact fits.2
    rw [setTask_group, moved]
    -- neither an entity locked by `j` nor the one that `j` moves is the one of `i`
    refine (exc.fits j).frame (fun e locked => upd_ne _ _ ?_) (fun other moves => upd_ne _ _ ?_)
    · rintro rfl
      exact same (exc.entityLocks.unique locked mine)
    · have second := (exc.executing j other).mpr moves
      refine exc.apart present ((mem_erase_of_ne ?_).mpr second)
      simp [same]
  · have joins := ends_joins exc present ends
    exact joins

theorem Exclusive.work (exc : Exclusive w) (c : Choice) (goes : (advance w (w.workers i)).ends = false)
    (apart : ∀ e, (w.workers i).task = .broadcastLock e → w.group e = 0)
    (marked : Marked (w.apply i c (advance w (w.workers i)))) :
    Exclusive (w.apply i c (advance w (w.workers i))) := by
  have lawful := advance_lawful w (w.workers i)
  have known := advance_known (exc.fits i) apart
  have groups := exc.groupLocks
  have entities := exc.entityLocks
  rw [← upd_id (fun j => (w.workers j).groups) i] at groups
  rw [← upd_id (fun j => (w.workers j).entities) i] at entities
  generalize advance w (w.workers i) = act at lawful known marked goes
  cases act with
  | become task => exact exc.become known marked
  | takeGroup g task => exact exc.moved i _ rfl rfl rfl (exc.groupLocks.take i lawful.1) entities known marked
  | takeEntity e task => exact exc.moved i _ rfl rfl rfl groups (exc.entityLocks.take i lawful.1) known marked
  | dropGroup g =>
    obtain ⟨next, releasing⟩ := known
    exact exc.moved i _ rfl rfl rfl (exc.groupLocks.drop lawful) entities (by rw [releasing]; trivial) marked
  | dropEntity e =>
    obtain ⟨next, releasing⟩ := known
    exact exc.moved i _ rfl rfl rfl groups (exc.entityLocks.drop lawful) (by rw [releasing]; trivial) marked
  | retry | stale | update => contradiction

theorem Exclusive.move (exc : Exclusive w) (move : Move w input v)
    (disciplined : Disciplined w input) : Exclusive v := by
  have marked := exc.toMarked.move move
  cases move with
  | stay => exact exc
  | @ask e target goal state handler bound refused unmarked =>
    refine exc.posted rfl rfl rfl rfl ?_ marked
    intro m member join
    cases refused with
    | true => exact exc.joins m member join
    | false =>
      rcases mem_snoc.mp member with old | rfl
      · exact exc.joins m old join
      · obtain rfl : state = .join := join
        exact disciplined
  | @due index req refused present =>
    refine exc.posted rfl rfl rfl rfl ?_ marked
    cases refused with
    | true => simpa using fun m member join => exc.joins m (mem_of_mem_erase member) join
    | false => exact exc.joins_replace present rfl rfl
  | @take i index req present idle =>
    refine { toMarked := marked, groupLocks := ?_, entityLocks := ?_, fits := ?_, joins := ?_ }
    · simp only [setTask_groupLock, setTask_groups]
      exact exc.groupLocks
    · simp only [setTask_entityLock, setTask_entities]
      exact exc.entityLocks
    · intro j
      by_cases same : j = i
      · subst same
        rw [setTask_task]
        trivial
      · rw [setTask_other _ _ _ same]
        exact exc.fits j
    · exact exc.joins_replace present rfl rfl
  | start idle first =>
    refine exc.become ?_ marked
    rcases first with ⟨e, rfl⟩ | ⟨job, rfl⟩
    · trivial
    · rfl
  | work goes =>
    refine exc.work _ goes (fun e locks => ?_) marked
    simp only [Disciplined, locks] at disciplined
    exact disciplined
  | ends executes ends => exact exc.ends executes ends
  | reply handed => exact exc.posted rfl rfl rfl rfl exc.joins marked

theorem step_exclusive (w : World) (input : Input) (disciplined : Disciplined w input) (exc : Exclusive w) :
    Exclusive (w.step input) := exc.move (step_move exc.toMarked input) disciplined

theorem Move.group (move : Move w input v) : v.group = w.group ∨
    ∃ i req, (w.workers i).task = .settle req ∧
      v.group = upd w.group req.entity (World.Request.destination req) := by
  cases move with
  | work goes =>
    obtain ⟨_, _, _, same, -⟩ := apply_kept _ goes
    rw [same]
    exact .inl rfl
  | ends executes ends => exact ends.frame.2.2.2.imp_right fun settled => ⟨_, _, settled⟩
  | stay | ask | due | take | start | reply => exact .inl rfl

end moves

theorem fresh_exclusive (group : Nat → Nat) : Exclusive (.fresh group) := by
  refine { toMarked := fresh_marked group, groupLocks := ?_, entityLocks := ?_, fits := ?_, joins := ?_ }
  · constructor <;> simp [fresh]
  · constructor <;> simp [fresh]
  · intro i
    trivial
  · simp [fresh]

/-- Whether a handler that runs in the task runs on entity `e`. -/
def Task.uses : Task → Nat → Prop
  | .handling job _, e => e ∈ job.targets
  | .broadcasting target, e => e = target
  | _, _ => False

/-- `EntityLockGroupScope.Get`: the entity while it is in the group of the scope. `Range`
passes on the entities that `Get` returns. -/
def World.scopeGet (w : World) (g e : Nat) : Option Nat :=
  if g = 0 ∨ e = 0 then none else if w.group e = g then some e else none

theorem handling_holds (exc : Exclusive w) (handles : (w.workers j).task = .handling job g)
    (positive : g ≠ 0) : g ∈ (w.workers j).groups := by
  have fits := exc.fits j
  rw [handles] at fits
  exact fits.1 positive

/-- No other handler runs on a member of a group that a handler holds. -/
theorem Exclusive.unused (exc : Exclusive w) (handles : (w.workers j).task = .handling job g)
    (positive : g ≠ 0) (other : i ≠ j) (member : w.group e = g) : ¬ (w.workers i).task.uses e := by
  intro uses
  have fits := exc.fits i
  generalize task : (w.workers i).task = mine at uses fits
  cases mine with
  | handling job' g' =>
    rcases (fits.2 e uses).2 with alone | inside
    · exact positive (by rw [← member, alone])
    -- two handlers of one group would hold the same lock
    have same : g' = g := by rw [← inside, member]
    have second := handling_holds exc task (same ▸ positive)
    rw [same] at second
    exact other (exc.groupLocks.unique second (handling_holds exc handles positive))
  | broadcasting target =>
    obtain rfl : e = target := uses
    exact positive (by rw [← member, fits.2])
  | _ => exact uses

/-- A transition that holds its locks neither enters nor leaves a group it does not hold. -/
theorem needs_of_move {w : World} (positive : g ≠ 0)
    (joins : req.state = .join → w.group req.entity = 0) (free : g ∉ req.needs w.group) :
    World.Request.destination req ≠ g ∧ w.group req.entity ≠ g := by
  rw [Request.needs, mem_transitionLockGroupIDs] at free
  generalize state : req.state = kind at free
  cases kind with
  | join =>
    have outside := joins state
    refine ⟨?_, fun inside => positive (by rw [← inside, outside])⟩
    intro enters
    rw [World.Request.destination, state] at enters
    exact free ⟨positive, enters.symm⟩
  | leave =>
    refine ⟨?_, fun inside => free ⟨positive, inside.symm⟩⟩
    rw [World.Request.destination, state]
    exact positive.symm
  | move =>
    refine ⟨?_, fun inside => free ⟨positive, .inl inside.symm⟩⟩
    intro enters
    rw [World.Request.destination, state] at enters
    exact free ⟨positive, .inr enters.symm⟩

/-- No step changes the members of a group that a handler holds. -/
theorem Exclusive.members (exc : Exclusive w) (handles : (w.workers j).task = .handling job g)
    (positive : g ≠ 0) (input : Input) (e : Nat) : (w.step input).group e = g ↔ w.group e = g := by
  rcases (step_move exc.toMarked input).group with same | ⟨i, req, settling, group⟩
  · rw [same]
  have other : i ≠ j := by
    rintro rfl
    rw [settling] at handles
    contradiction
  have fits := exc.fits i
  rw [settling] at fits
  have free : g ∉ req.needs w.group := by
    intro needed
    exact other (exc.groupLocks.unique (fits.1 g needed) (handling_holds exc handles positive))
  have present : (Place.executing i, req) ∈ w.messages := by
    rw [exc.executing i req, settling]
    rfl
  obtain ⟨enters, leaves⟩ := needs_of_move positive (exc.joins _ present) free
  rw [group]
  by_cases here : e = req.entity
  · rw [here, upd_self]
    simp [enters, leaves]
  · rw [upd_ne _ _ here]

theorem members_along (exc : Exclusive w) (positive : g ≠ 0)
    (disciplined : Along step Disciplined w inputs)
    (held : Along step (fun v _ => (v.workers j).task = .handling job g) w inputs) (e : Nat) :
    (run step w inputs).group e = g ↔ w.group e = g := by
  induction inputs generalizing w with
  | nil => exact Iff.rfl
  | cons input rest ih =>
    have later := ih (step_exclusive w input disciplined.1 exc) disciplined.2 held.2
    exact later.trans (exc.members held.1 positive input e)

/-- While a handler runs in the scope of group `g`, the members of `g` stay the same and no
other handler runs on one of them, so that nobody else uses an entity the scope has
returned. Dispatches of every kind, transitions, refusals and retries interleave freely;
joins are asked for outside of groups and broadcasts reach entities outside of groups. -/
theorem lock_group_exclusive (group : Nat → Nat) (before during : List Input)
    (disciplined : Along step Disciplined (.fresh group) (before ++ during)) (j : Nat) (job : Job) (g : Nat)
    (positive : g ≠ 0)
    (held : Along step (fun v _ => (v.workers j).task = .handling job g)
      (run step (.fresh group) before) during)
    (still : ((run step (.fresh group) (before ++ during)).workers j).task = .handling job g) :
    let w := run step (.fresh group) before
    let v := run step (.fresh group) (before ++ during)
    (∀ e, v.group e = g ↔ w.group e = g) ∧
    (∀ i, i ≠ j → ∀ e, v.group e = g → ¬ (v.workers i).task.uses e) ∧
    ∀ e x, w.scopeGet g e = some x → ∀ i, i ≠ j → ¬ (v.workers i).task.uses x := by
  intro w v
  obtain ⟨first, second⟩ := along_append.mp disciplined
  have exc : Exclusive w := invariant_along step_exclusive (fresh_exclusive group) first
  have after : Exclusive v := invariant_along step_exclusive (fresh_exclusive group) disciplined
  have members : ∀ e, v.group e = g ↔ w.group e = g := by
    intro e
    have same := members_along exc positive second held e
    rwa [← run_append] at same
  have unused : ∀ i, i ≠ j → ∀ e, v.group e = g → ¬ (v.workers i).task.uses e := by
    intro i other e member
    exact after.unused still positive other member
  refine ⟨members, unused, ?_⟩
  intro e x got i other
  simp only [World.scopeGet] at got
  split at got
  · contradiction
  split at got
  · rename_i member
    cases got
    exact unused i other e ((members e).mpr member)
  · contradiction

/-- The entities that a worker has locked at each of its places, whatever becomes of their groups. -/
def Secures (entities : List Nat) : Task → Prop
  | .lockEntities job _ _ todo => ∀ e ∈ job.targets, e ∈ entities ∨ e ∈ todo
  | .validate job _ _ | .handling job _ => ∀ e ∈ job.targets, e ∈ entities
  | .broadcasting e => e ∈ entities
  | .settle req => req.entity ∈ entities
  | _ => True

def Act.Leaves (k : Worker) : Act → Prop
  | .become task | .takeGroup _ task => Secures k.entities task
  | .takeEntity e task => Secures (e :: k.entities) task
  | .dropGroup _ => Secures k.entities k.task
  | .dropEntity e => Secures (k.entities.erase e) k.task
  | .retry _ | .stale _ | .update _ => True

theorem advance_secures (secures : Secures k.entities k.task) : (advance w k).Leaves k := by
  obtain ⟨groups, entities, task⟩ := k
  unfold advance
  repeat' split
  all_goals simp_all only [Act.Leaves, Secures]
  all_goals grind [Secures]

structure Secured (w : World) : Prop extends Marked w where
  entityLocks : Locks w.entityLock fun i => (w.workers i).entities
  secures : ∀ i, Secures (w.workers i).entities (w.workers i).task

theorem Secured.moved (sec : Secured w) (i : Nat) (k : Worker) (workers : v.workers = upd w.workers i k)
    (entityLocks : Locks v.entityLock (upd (fun j => (w.workers j).entities) i k.entities))
    (secures : Secures k.entities k.task) (marked : Marked v) : Secured v := by
  refine { toMarked := marked, entityLocks := ?_, secures := fun j => ?_ }
  · rw [workers, upd_comp Worker.entities]
    exact entityLocks
  · rw [workers]
    by_cases same : j = i
    · rw [same, upd_self]
      exact secures
    · rw [upd_ne _ _ same]
      exact sec.secures j

theorem step_secured (w : World) (input : Input) (sec : Secured w) : Secured (w.step input) := by
  have move := step_move sec.toMarked input
  have marked := sec.toMarked.move move
  have kept (i : Nat) : Locks w.entityLock (upd (fun j => (w.workers j).entities) i (w.workers i).entities) := by
    rw [upd_id fun j => (w.workers j).entities]
    exact sec.entityLocks
  generalize w.step input = v at move marked
  cases move with
  | stay => exact sec
  | ask | due | reply => exact ⟨marked, sec.entityLocks, sec.secures⟩
  | take => exact sec.moved _ _ rfl (kept _) trivial marked
  | start idle first =>
    refine sec.moved _ _ rfl (kept _) ?_ marked
    rcases first with ⟨e, rfl⟩ | ⟨job, rfl⟩ <;> trivial
  | @work i c goes =>
    have lawful := advance_lawful w (w.workers i)
    have secures := advance_secures (w := w) (sec.secures i)
    generalize advance w (w.workers i) = act at lawful secures marked goes
    cases act with
    | become | takeGroup | dropGroup => exact sec.moved i _ rfl (kept i) secures marked
    | takeEntity => exact sec.moved i _ rfl (sec.entityLocks.take i lawful.1) secures marked
    | dropEntity => exact sec.moved i _ rfl (sec.entityLocks.drop lawful) secures marked
    | retry | stale | update => contradiction
  | @ends i _ _ _ _ executes ends =>
    obtain ⟨-, lock, workers, -⟩ := ends.frame
    refine sec.moved i { w.workers i with task := .release none } ?_ ?_ trivial marked
    · rw [← workers]
      rfl
    · rw [setTask_entityLock, lock]
      exact kept i

/-- While a handler runs on an entity, no other handler runs on it and no step changes its group.
This needs no discipline: the exclusion of one entity rests on its own lock. -/
theorem handlers_apart (group : Nat → Nat) (inputs : List Input) (i e : Nat) :
    let w := run step (.fresh group) inputs
    (w.workers i).task.uses e → (∀ j, j ≠ i → ¬ (w.workers j).task.uses e) ∧
      ∀ input, (w.step input).group e = w.group e := by
  intro w mine
  have fresh := fresh_exclusive group
  have sec : Secured w := invariant step_secured ⟨fresh.toMarked, fresh.entityLocks, fun _ => trivial⟩ inputs
  have held (k : Nat) (uses : (w.workers k).task.uses e) : e ∈ (w.workers k).entities := by
    have secures := sec.secures k
    generalize (w.workers k).task = task at uses secures
    cases task with
    | handling => exact secures e uses
    | broadcasting => exact uses ▸ secures
    | _ => exact uses.elim
  refine ⟨fun j other theirs => other (sec.entityLocks.unique (held j theirs) (held i mine)), fun input => ?_⟩
  rcases (step_move sec.toMarked input).group with same | ⟨j, req, settling, moved⟩
  · rw [same]
  have locked := sec.secures j
  rw [settling] at locked
  rw [moved, upd_ne]
  rintro rfl
  obtain rfl := sec.entityLocks.unique locked (held i mine)
  rw [settling] at mine
  exact mine

/-- Entities 1 and 2 are in group 7, the others in none. -/
def twoMembers : Nat → Nat := fun e => if e = 1 ∨ e = 2 then 7 else 0

/-- Worker 0 handles entity 2 in the scope of group 7. -/
def scopeInputs : List Input := .dispatch 0 [2] false :: replicate 6 (.advance 0 {})

/-- Worker 1 tries to let entity 1 leave the group, worker 2 runs a broadcast on entity 3
and worker 3 moves entity 3 to group 9. -/
def duringInputs : List Input :=
  [.request 1 .leave 0 none false false, .take 1 0, .advance 1 {}, .advance 1 {}, .broadcast 2 3, .advance 2 {},
    .request 3 .join 9 none false false, .take 3 1, .advance 3 {}, .advance 3 {}, .advance 2 {}]

theorem lock_group_exclusive_leave :
    let v := run step (.fresh twoMembers) (scopeInputs ++ duringInputs)
    Along step Disciplined (.fresh twoMembers) (scopeInputs ++ duringInputs) ∧
      (v.workers 0).task = .handling ⟨[2], false, 0⟩ 7 ∧ v.group 1 = 7 ∧
      ∀ i, i ≠ 0 → ¬ (v.workers i).task.uses 1 := by
  have disciplined : Along step Disciplined (.fresh twoMembers) (scopeInputs ++ duringInputs) := by
    decide +kernel
  have still : ((run step (.fresh twoMembers) (scopeInputs ++ duringInputs)).workers 0).task =
      .handling ⟨[2], false, 0⟩ 7 := by
    decide +kernel
  have exclusive := lock_group_exclusive twoMembers scopeInputs duringInputs disciplined 0 ⟨[2], false, 0⟩ 7
    (by decide) (by decide +kernel) still
  have member : (run step (.fresh twoMembers) (scopeInputs ++ duringInputs)).group 1 = 7 :=
    (exclusive.1 1).mpr (by decide +kernel)
  exact ⟨disciplined, still, member, fun i other => exclusive.2.1 i other 1 member⟩

theorem handlers_apart_scope : ∀ input,
    ((run step (.fresh twoMembers) scopeInputs).step input).group 2 = 7 :=
  (handlers_apart twoMembers scopeInputs 0 2 mem_cons_self).2

/-- Entity 1 joins group 8 while a handler holds its group 7, or a broadcast handler runs on
it meanwhile. -/
theorem group_left_while_held :
    let joined := run step (.fresh twoMembers)
      (scopeInputs ++ [.request 1 .join 8 none false false, .take 1 0] ++ replicate 5 (.advance 1 {}))
    let broadcast := run step (.fresh twoMembers) (scopeInputs ++ [.broadcast 1 1, .advance 1 {}])
    (run step (.fresh twoMembers) scopeInputs).scopeGet 7 1 = some 1 ∧
    ((joined.workers 0).task = .handling ⟨[2], false, 0⟩ 7 ∧ joined.group 1 = 8) ∧
    ((broadcast.workers 0).task = .handling ⟨[2], false, 0⟩ 7 ∧ broadcast.group 1 = 7 ∧
      (broadcast.workers 1).task = .broadcasting 1) := by
  decide +kernel

end Roost.Nest.LockGroup
