import RoostCore.Saga.Commit
import RoostCore.Saga.Log

/-! The timers of a partition. Every live saga waits in the wheel at its own time, except
between the decision of a round and its installation, when the sagas of the overlay may
wait nowhere; every saga that may be pruned is queued with its last update. -/
namespace Roost.Saga
open Go List Option Time

section rounds
open Round Partition
variable [Digest] (o : Options) (registry : Registry) {p : Partition} {r : Round}

/-- What its timer makes of a saga in a round. -/
def SagaState.fired (registry : Registry) (now : Time) (st : SagaState) : SagaState :=
  if st.record.status.terminal ∨ unixNano now < unixNano st.record.nextRunAt then st
  else (st.due (registry st.record.type st.record.definitionVersion) now).1

variable {o registry} in
theorem Round.Step.now (step : r.Step o registry p new) : new.now = r.now := by
  cases step with
  | quiet same => exact same.now
  | write change same => exact same.now.trans (write_overlay _ _ _).2.1

variable {o registry} in
theorem Round.Step.overlay {id : String} (step : r.Step o registry p new)
    (written : (r.overlay.get id).isSome) : (new.overlay.get id).isSome := by
  cases step with
  | quiet same => rwa [same.overlay]
  | write change same =>
    rw [same.overlay, (write_overlay _ _ _).1, Table.get_set]
    split
    · rfl
    · exact written

theorem Round.reaches_overlay {id : String}
    (path : Relation.ReflTransGen (Round.Step o registry p) r new)
    (written : (r.overlay.get id).isSome) : (new.overlay.get id).isSome := by
  induction path with
  | refl => exact written
  | tail _ step ih => exact step.overlay ih

/-- A timer fires: its saga is written as `due` leaves it, under its own ID. -/
theorem Round.timer_due {id : String} (keyed : r.Keyed p) (found : r.get p id = some st)
    (fires : ¬ (st.record.status.terminal = true ∨
      unixNano r.now < unixNano st.record.nextRunAt)) :
    (st.fired registry r.now).record.id = id ∧
      ∃ kind command, (r.write o (st.fired registry r.now) kind command).Same
        (r.timer o registry p id) := by
  have due : st.fired registry r.now =
      (st.due (registry st.record.type st.record.definitionVersion) r.now).1 := if_neg fires
  rw [due]
  refine ⟨(congrArg Identity.id (planDue_quiet _ _ _).identity).trans (keyed _ _ found), ?_⟩
  unfold timer
  simp only [found, if_neg fires]
  exact ⟨_, _, rfl, rfl, rfl, rfl, rfl⟩

theorem Round.timer_get (keyed : r.Keyed p) (id other : String) :
    (r.timer o registry p id).get p other =
      if other = id then (r.get p id).map (SagaState.fired registry r.now) else r.get p other := by
  have quiet (idle : r.timer o registry p id = r)
      (same : (r.get p id).map (SagaState.fired registry r.now) = r.get p id) :
      (r.timer o registry p id).get p other =
        if other = id then (r.get p id).map (SagaState.fired registry r.now) else r.get p other := by
    rw [idle, same]
    split
    · rename_i here
      rw [here]
    · rfl
  cases found : r.get p id with
  | none => exact found ▸ quiet (by simp [timer, found]) (by simp [found])
  | some st =>
    by_cases early : st.record.status.terminal = true ∨
        unixNano r.now < unixNano st.record.nextRunAt
    · exact found ▸ quiet (by simp [timer, found, early])
        (by simp [found, SagaState.fired, early])
    · obtain ⟨named, kind, command, same⟩ := timer_due o registry keyed found early
      rw [same.get p, write_get, named]
      rfl

theorem Round.timer_overlay {id : String} (keyed : r.Keyed p) (found : r.get p id = some st)
    (live : st.record.status.terminal = false)
    (ripe : unixNano st.record.nextRunAt ≤ unixNano r.now) :
    ((r.timer o registry p id).overlay.get id).isSome := by
  obtain ⟨named, kind, command, same⟩ := timer_due o registry keyed found
    (by simp [live, Int.not_lt.mpr ripe])
  rw [same.overlay, (write_overlay _ _ _).1, named, Table.get_set_self]
  rfl

theorem Round.timers_get (keyed : r.Keyed p) (seen due : List String) (id : String) :
    (timers o registry p seen due r).get p id =
      if id ∈ due ∧ id ∉ seen then (r.get p id).map (SagaState.fired registry r.now)
      else r.get p id := by
  induction due generalizing r seen with
  | nil => simp [timers]
  | cons head rest ih =>
    unfold timers
    split
    · rename_i again
      rw [ih keyed]
      by_cases here : id = head
      · subst here
        simp [contains_iff_mem.mp again]
      · simp [here]
    · rename_i first
      have step := timer_step o registry keyed head
      rw [ih (step.keyed keyed), step.now, timer_get o registry keyed]
      have first : head ∉ seen := by simpa using first
      by_cases here : id = head
      · subst here
        simp [first]
      · simp [here]

theorem Round.timers_overlay {id : String} (keyed : r.Keyed p) (seen due : List String)
    (member : id ∈ due) (first : id ∉ seen) (found : r.get p id = some st)
    (live : st.record.status.terminal = false)
    (ripe : unixNano st.record.nextRunAt ≤ unixNano r.now) :
    ((timers o registry p seen due r).overlay.get id).isSome := by
  induction due generalizing r seen with
  | nil => contradiction
  | cons head rest ih =>
    unfold timers
    by_cases here : id = head
    · subst here
      have fired := timer_overlay o registry keyed found live ripe
      have keyed := (timer_step o registry keyed id).keyed keyed
      rw [if_neg (by simpa using first)]
      exact reaches_overlay o registry (timers_reaches o registry keyed _ _) fired
    · have member : id ∈ rest := (mem_cons.mp member).resolve_left here
      split
      · exact ih keyed seen member first found ripe
      have step := timer_step o registry keyed head
      refine ih (step.keyed keyed) (head :: seen) member (by simp [here, first]) ?_ ?_
      · rw [timer_get o registry keyed, if_neg here, found]
      · rwa [step.now]

theorem Partition.inputs_reaches (keyed : p.Keyed) (batch : List InputMsg) (now : Time) :
    (p.inputs o registry batch now).Keyed p ∧ (p.inputs o registry batch now).now = now := by
  have start : (p.newRound now).Keyed p := by
    intro id st found
    exact keyed id st found
  have path := Round.inputs_reaches o registry start batch
  refine ⟨reaches_keyed o registry path start, ?_⟩
  unfold inputs
  generalize batch.foldl (input o registry p) (p.newRound now) = final at path
  induction path with
  | refl => rfl
  | tail _ step ih => exact step.now.trans ih

/-- A saga whose timer is due is fired on the state the inputs of the round left. -/
theorem Partition.decide_fires (keyed : p.Keyed) (batch : List InputMsg) (now : Time) {id : String}
    (due : id ∈ (p.wheel.advance now).2) :
    (p.decide o registry batch now).1.get p id =
      ((p.inputs o registry batch now).get p id).map (SagaState.fired registry now) := by
  obtain ⟨inputs, clock⟩ := inputs_reaches o registry keyed batch now
  have fires := timers_get o registry inputs [] ((p.wheel.advance now).2 ++
    (p.inputs o registry batch now).touched) id
  rw [if_pos ⟨mem_append_left _ due, not_mem_nil⟩, clock] at fires
  exact fires

theorem Partition.decide_overlay (keyed : p.Keyed) (batch : List InputMsg) (now : Time) {id : String}
    (due : id ∈ (p.wheel.advance now).2)
    (found : (p.inputs o registry batch now).get p id = some st)
    (live : st.record.status.terminal = false)
    (ripe : unixNano st.record.nextRunAt ≤ unixNano now) :
    ((p.decide o registry batch now).1.overlay.get id).isSome := by
  obtain ⟨inputs, clock⟩ := inputs_reaches o registry keyed batch now
  exact timers_overlay o registry inputs [] _ (mem_append_left _ due) not_mem_nil found
    live (clock.symm ▸ ripe)

/-- A saga outside the overlay is outside it after the inputs alone. -/
theorem Partition.inputs_overlay (keyed : p.Keyed) (batch : List InputMsg) (now : Time) {id : String}
    (untouched : (p.decide o registry batch now).1.overlay.get id = none) :
    (p.inputs o registry batch now).overlay.get id = none := by
  obtain ⟨inputs, -⟩ := inputs_reaches o registry keyed batch now
  have path := timers_reaches o registry inputs [] ((p.wheel.advance now).2 ++
    (p.inputs o registry batch now).touched)
  rw [← not_isSome_iff_eq_none] at untouched ⊢
  exact fun written => untouched (reaches_overlay o registry path written)

end rounds

section commit
open Partition
variable {p next : Partition} {r : Round}

/-- A saga waits in the wheel at its own time while it lives, and in the prune queue with
its last update once it may be pruned. -/
def Partition.Lists (p : Partition) (id : String) (st : SagaState) : Prop :=
  (st.record.status.terminal = false →
    { id, at_ := unixNano st.record.nextRunAt } ∈ p.wheel.entries) ∧
  (prunable st.record.status = true →
    { id, updatedAt := st.record.updatedAt } ∈ p.terminals)

/-- What an enlistment keeps. -/
structure Partition.Grows (p next : Partition) : Prop where
  wheel : p.wheel.Sound → next.wheel.Sound
  entries : p.wheel.Sound → ∀ e ∈ p.wheel.entries, e ∈ next.wheel.entries
  queue : ∀ e ∈ p.terminals, e ∈ next.terminals

theorem Partition.Grows.refl (p : Partition) : p.Grows p := ⟨id, fun _ _ => id, fun _ => id⟩

theorem Partition.Grows.trans {a b c : Partition} (first : a.Grows b) (second : b.Grows c) :
    a.Grows c :=
  ⟨fun sound => second.wheel (first.wheel sound),
    fun sound e member => second.entries (first.wheel sound) e (first.entries sound e member),
    fun e member => second.queue e (first.queue e member)⟩

theorem Partition.Lists.grows {id : String} (lists : p.Lists id st) (grows : p.Grows next)
    (sound : p.wheel.Sound) : next.Lists id st :=
  ⟨fun live => grows.entries sound _ (lists.1 live), fun done => grows.queue _ (lists.2 done)⟩

theorem Partition.enlist_grows (p : Partition) (id : String) (st : SagaState) :
    p.Grows (p.enlist id st) := by
  unfold enlist
  split
  · exact ⟨fun sound => Wheel.schedule_sound sound _ _,
      fun sound e member => (Wheel.schedule_mem sound _ _).mpr (.inl member), fun _ x => x⟩
  · split
    · exact ⟨fun x => x, fun _ _ x => x, fun e member => mem_append_left _ member⟩
    · exact .refl p

theorem Partition.enlist_lists (sound : p.wheel.Sound) (id : String) (st : SagaState) :
    (p.enlist id st).Lists id st := by
  unfold enlist
  constructor
  · intro live
    rw [if_pos (by simp [live])]
    exact (Wheel.schedule_mem sound _ _).mpr (.inr rfl)
  · intro done
    have ended : st.record.status.terminal = true ∧ st.record.status ≠ .manualRequired := by
      cases status : st.record.status <;> simp_all [prunable, Status.terminal]
    rw [if_neg (by simp [ended.1]), if_pos ended.2]
    exact mem_append_right _ mem_cons_self

theorem Partition.place_grows (p : Partition) (r : Round) (id : String) : p.Grows (p.place r id) := by
  unfold place
  split
  · exact Partition.Grows.trans (b := { p with sagas := p.sagas.set id _ })
      ⟨fun x => x, fun _ _ x => x, fun _ x => x⟩ (enlist_grows _ _ _)
  · exact .refl p

theorem Partition.placeAll_grows (r : Round) (ids : List String) (p : Partition) :
    p.Grows (ids.foldl (place r) p) := by
  induction ids generalizing p with
  | nil => exact .refl p
  | cons id rest ih => exact (place_grows p r id).trans (ih _)

theorem Partition.placeAll_lists {id : String} {ids : List String} (sound : p.wheel.Sound)
    (written : r.overlay.get id = some st) (member : id ∈ ids) :
    (ids.foldl (place r) p).Lists id st := by
  induction ids generalizing p with
  | nil => contradiction
  | cons head rest ih =>
    have wheel := (place_grows p r head).wheel sound
    rcases mem_cons.mp member with rfl | later
    · refine Partition.Lists.grows ?_ (placeAll_grows r rest _) wheel
      unfold place
      simp only [written]
      exact enlist_lists (by exact sound) id st
    · exact ih wheel later

theorem Partition.install_grows (p : Partition) (r : Round) (lastEv : Nat) :
    p.Grows (p.install r lastEv) := by
  unfold install
  split
  · exact ⟨id, fun _ _ => id, fun _ => id⟩
  · have grows := placeAll_grows r r.touched { p with lastEv }
    exact ⟨grows.wheel, grows.entries, grows.queue⟩

theorem Partition.install_lists {id : String} (indexed : r.Indexed) (sound : p.wheel.Sound)
    (lastEv : Nat) (written : r.overlay.get id = some st) : (p.install r lastEv).Lists id st := by
  have placed := placeAll_lists (p := { p with lastEv }) sound written
    ((indexed.touched id).mpr ⟨st, written⟩)
  obtain ⟨i, here⟩ := indexed.covered id st written
  obtain ⟨ev, event, -⟩ := indexed.last id i here
  have events : r.events.length ≠ 0 := by
    have := (List.getElem?_eq_some_iff.mp event).1
    omega
  unfold install
  rw [if_neg events]
  exact placed

end commit

/-- The prune queue keeps the entry of every saga that stays. -/
theorem pruneLoop_queue (cutoff : Time) (budget : Nat)
    (queued : ∀ id st, sagas.get id = some st → prunable st.record.status = true →
      { id, updatedAt := st.record.updatedAt } ∈ queue) :
    ∀ id st, (pruneLoop cutoff budget queue sagas).2.get id = some st →
      prunable st.record.status = true →
      { id, updatedAt := st.record.updatedAt } ∈ (pruneLoop cutoff budget queue sagas).1 := by
  induction budget generalizing queue sagas with
  | zero => exact queued
  | succ budget ih =>
    cases queue with
    | nil => exact queued
    | cons head rest =>
      unfold pruneLoop
      split
      · exact queued
      split
      · rename_i current found
        split
        · apply ih
          intro id st stays done
          have distinct : id ≠ head.id := by
            rintro rfl
            rw [Table.get_remove_self] at stays
            contradiction
          rw [Table.get_remove_ne _ distinct] at stays
          refine (mem_cons.mp (queued id st stays done)).resolve_left fun same => ?_
          exact distinct (congrArg PruneEntry.id same)
        · rename_i stale
          apply ih
          intro id st stays done
          refine (mem_cons.mp (queued id st stays done)).resolve_left ?_
          rintro rfl
          cases some.inj (stays.symm.trans found)
          exact stale ⟨rfl, done⟩
      · rename_i gone
        apply ih
        intro id st stays done
        refine (mem_cons.mp (queued id st stays done)).resolve_left ?_
        rintro rfl
        rw [gone] at stays
        contradiction

section replayed
variable {o : Options}

theorem scheduleAll {w : Wheel} (sound : w.Sound) (sagas : List (String × SagaState)) :
    (sagas.foldl (fun wheel (id, st) => wheel.schedule id st.record.nextRunAt) w).Sound ∧
      ∀ e, e ∈ w.entries ∨ (∃ id st, (id, st) ∈ sagas ∧
          e = { id, at_ := unixNano st.record.nextRunAt }) →
        e ∈ (sagas.foldl (fun wheel (id, st) => wheel.schedule id st.record.nextRunAt) w).entries := by
  induction sagas generalizing w with
  | nil => exact ⟨sound, by simp⟩
  | cons saga rest ih =>
    obtain ⟨wheel, entries⟩ := ih (Wheel.schedule_sound sound saga.1 saga.2.record.nextRunAt)
    refine ⟨wheel, fun e waiting => entries e ?_⟩
    rw [Wheel.schedule_mem sound]
    rcases waiting with before | ⟨id, st, member, rfl⟩
    · exact .inl (.inl before)
    rcases mem_cons.mp member with rfl | later
    · exact .inl (.inr rfl)
    · exact .inr ⟨id, st, later, rfl⟩

/-- A partition that starts lists every saga it replayed. -/
theorem replayPartition_lists (r : Replayed) (now : Time) (clock : 0 ≤ unixNano now) :
    (replayPartition o r now).wheel.Sound ∧
      ∀ id st, r.sagas.get id = some st → (replayPartition o r now).Lists id st := by
  obtain ⟨wheel, entries⟩ := scheduleAll (Wheel.newWheel_sound o.tick o.wheelSlots clock)
    (r.sagas.pairs.filter fun (_, st) => !st.record.status.terminal)
  refine ⟨wheel, fun id st found => ⟨fun live => ?_, fun done => ?_⟩⟩
  · refine entries _ (.inr ⟨id, st, mem_filter.mpr ⟨Table.mem_pairs.mpr found, ?_⟩, rfl⟩)
    simp [live]
  · unfold replayPartition
    rw [List.mem_mergeSort, List.mem_map]
    exact ⟨(id, st), mem_filter.mpr ⟨Table.mem_pairs.mpr found, done⟩, rfl⟩

/-- Every saga is stored under its own ID. -/
def OwnKeys (sagas : Table String SagaState) : Prop :=
  ∀ id st, sagas.get id = some st → st.record.id = id

theorem OwnKeys.set (own : OwnKeys sagas) (st : SagaState) : OwnKeys (sagas.set st.record.id st) := by
  intro id other found
  rw [Table.get_set] at found
  split at found
  · rename_i here
    rw [← some.inj found, here]
  · exact own id other found

theorem OwnKeys.empty : OwnKeys ∅ := by
  intro id st found
  simp at found

theorem Server.snapshot_keys {server : Server} (loaded : server.snapshot o = .ok base) :
    OwnKeys base.sagas := by
  have states (body : List SagaState) {sagas : Table String SagaState} (own : OwnKeys sagas) :
      OwnKeys (body.foldl (fun sagas st => sagas.set st.record.id st) sagas) := by
    induction body generalizing sagas with
    | nil => exact own
    | cons st rest ih => exact ih (own.set st)
  unfold Server.snapshot at loaded
  split at loaded
  · cases loaded
    exact .empty
  simp only [bind, Except.bind] at loaded
  split at loaded
  · contradiction
  split at loaded
  · contradiction
  split at loaded
  · contradiction
  · cases loaded
    exact states _ .empty

theorem Replayed.read_keys (own : OwnKeys r.sagas) (read : Replayed.read o base r msg = .ok new) :
    OwnKeys new.sagas := by
  unfold Replayed.read at read
  split at read
  · cases read
    split <;> exact own
  split at read
  · cases read
    exact own
  · simp only [bind, Except.bind] at read
    split at read
    · contradiction
    · cases read
      exact own.set _

theorem replayOnce_keys (replayed : replayOnce o server = .ok r) : OwnKeys r.sagas := by
  have range (base : Replayed) (msgs : List LogMsg) {first last : Replayed}
      (own : OwnKeys first.sagas) (read : msgs.foldlM (Replayed.read o base) first = .ok last) :
      OwnKeys last.sagas := by
    induction msgs generalizing first with
    | nil => exact Except.ok.inj read ▸ own
    | cons msg rest ih =>
      rw [foldlM_cons] at read
      cases head : Replayed.read o base first msg with
      | error err => simp [head, bind, Except.bind] at read
      | ok middle =>
        rw [head] at read
        exact ih (Replayed.read_keys own head) read
  unfold replayOnce at replayed
  cases loaded : server.snapshot o with
  | error err => simp [loaded, bind, Except.bind] at replayed
  | ok base =>
    simp only [loaded, bind, Except.bind] at replayed
    split at replayed
    · contradiction
    rename_i last read
    cases replayed
    have own := range base _ (Server.snapshot_keys loaded) read
    exact own

end replayed

section machine
variable [Digest] {o : Options} {d : Deployment} {proc next : Process}

def Process.round (proc : Process) : Option Round := proc.publishing.map Publishing.round

/-- What a step of the process does to the committed state and the round. -/
inductive Process.Moves (o : Options) (proc next : Process) : Prop where
  | stays (partition : next.partition = proc.partition) (round : next.round = proc.round)
  | decides {registry batch now} (idle : proc.round = none)
      (partition : next.partition = (proc.partition.decide o registry batch now).2)
      (round : next.round = some (proc.partition.decide o registry batch now).1)
  | installs {r lastEv} (round : proc.round = some r)
      (partition : next.partition = proc.partition.install r lastEv) (idle : next.round = none)
  | prunes {now} (idle : proc.round = none) (partition : next.partition = proc.partition.prune o now)
      (round : next.round = none)

theorem Deployment.work_moves (act : Act) (running : d.process = some proc)
    (after : (d.work o proc act).process = some next) : proc.Moves o next := by
  have idle (same : d.process = some next) : proc.Moves o next := by
    cases some.inj (running.symm.trans same)
    exact .stays rfl rfl
  cases act <;> simp only [Deployment.work] at after
  case decide registry batch now =>
    split at after
    · exact idle after
    · rename_i publishing
      cases after
      exact .decides (by simp [Process.round, publishing]) rfl rfl
  case publish =>
    split at after
    · exact idle after
    rename_i publishing
    split at after
    · exact idle after
    unfold Deployment.publish at after
    split at after
    · contradiction
    · cases after
      exact .stays rfl (by simp [Process.round, publishing])
  case install =>
    split at after
    · exact idle after
    rename_i publishing
    split at after
    · exact idle after
    · cases after
      exact .installs (by simp [Process.round, publishing]) rfl rfl
  case prune now =>
    split at after
    · exact idle after
    · rename_i publishing
      cases after
      exact .prunes (by simp [Process.round, publishing]) rfl (by simp [Process.round, publishing])
  case crash => contradiction
  case abandonSnapshot =>
    cases after
    exact .stays rfl rfl
  case putManifest reported =>
    split at after
    · cases after
      split <;> exact .stays rfl rfl
    · exact idle after
  case arrive | elsewhere | start => exact idle after
  all_goals
    split at after
    all_goals first
      | exact idle after
      | cases some.inj after; exact .stays rfl rfl

/-- Every saga of a process waits at its time, unless the round under publication has
it; every saga that may be pruned is queued. -/
structure Process.Timely (proc : Process) : Prop where
  keyed : proc.partition.Keyed
  wheel : proc.partition.wheel.Sound
  round : ∀ r, proc.round = some r → r.Keyed proc.partition ∧ r.Indexed
  lists : ∀ id st, proc.partition.sagas.get id = some st →
    (st.record.status.terminal = false → (∀ r, proc.round = some r → r.overlay.get id = none) →
      { id, at_ := unixNano st.record.nextRunAt } ∈ proc.partition.wheel.entries) ∧
    (prunable st.record.status = true →
      { id, updatedAt := st.record.updatedAt } ∈ proc.partition.terminals)

theorem Process.Timely.decide (timely : proc.Timely) (idle : proc.round = none) (registry : Registry)
    (batch : List InputMsg) (now : Time)
    (partition : next.partition = (proc.partition.decide o registry batch now).2)
    (round : next.round = some (proc.partition.decide o registry batch now).1) : next.Timely := by
  have keyed := timely.keyed
  have sagas : next.partition.sagas = proc.partition.sagas := by rw [partition]; rfl
  have wheel : next.partition.wheel = (proc.partition.wheel.advance now).1 := by rw [partition]; rfl
  refine ⟨?_, ?_, fun r same => ?_, fun id st found => ⟨fun live waits => ?_, fun done => ?_⟩⟩
  · unfold Partition.Keyed
    rwa [sagas]
  · rw [wheel]
    exact Wheel.advance_sound timely.wheel now
  · rw [round] at same
    cases same
    refine ⟨?_, Partition.decide_indexed o registry keyed batch now⟩
    have start : (proc.partition.newRound now).Keyed proc.partition := by
      intro id st found
      exact keyed id st found
    have kept := Partition.decide_keeps o registry keyed batch now start fun _ _ step => step.keyed
    unfold Round.Keyed Round.get
    rwa [sagas]
  · rw [sagas] at found
    have untouched := waits _ round
    have entry := (timely.lists id st found).1 live (by simp [idle])
    rw [wheel, (Wheel.advance_exact timely.wheel now).1]
    refine ⟨entry, Int.not_le.mp fun ripe => ?_⟩
    -- a consumed entry fires its timer, and the round would have written the saga
    have due := ((Wheel.advance_exact timely.wheel now).2 id).mpr ⟨_, entry, ripe, rfl⟩
    have before := Partition.inputs_overlay o registry keyed batch now untouched
    have current : (proc.partition.inputs o registry batch now).get proc.partition id = some st := by
      simp [Round.get, before, found]
    have written := Partition.decide_overlay o registry keyed batch now due current live ripe
    rw [untouched] at written
    contradiction
  · rw [sagas] at found
    have queued := (timely.lists id st found).2 done
    rw [partition]
    exact queued

omit [Digest] in
theorem Process.Timely.install (timely : proc.Timely) (round : proc.round = some r)
    (partition : next.partition = proc.partition.install r lastEv) (idle : next.round = none) :
    next.Timely := by
  obtain ⟨keyed, indexed⟩ := timely.round r round
  have committed (id : String) : next.partition.sagas.get id = r.get proc.partition id := by
    rw [partition, Partition.install_get indexed]
  have grows : proc.partition.Grows next.partition := by
    rw [partition]
    exact Partition.install_grows _ _ _
  refine ⟨fun id st found => ?_, grows.wheel timely.wheel, by simp [idle], fun id st found => ?_⟩
  · rw [committed] at found
    exact keyed id st found
  · rw [committed] at found
    have lists : next.partition.Lists id st := by
      unfold Round.get at found
      cases written : r.overlay.get id with
      | some other =>
        simp only [written, some.injEq] at found
        rw [partition, ← found]
        exact Partition.install_lists indexed timely.wheel lastEv written
      | none =>
        simp only [written] at found
        obtain ⟨waits, queued⟩ := timely.lists id st found
        refine Partition.Lists.grows ⟨fun live => waits live fun other same => ?_, queued⟩ grows
          timely.wheel
        cases some.inj (round.symm.trans same)
        exact written
    exact ⟨fun live _ => lists.1 live, lists.2⟩

theorem Process.Timely.moves (timely : proc.Timely) (moves : proc.Moves o next) : next.Timely := by
  cases moves with
  | stays partition round =>
    obtain ⟨keyed, wheel, rounds, lists⟩ := timely
    exact ⟨by rwa [partition], by rwa [partition], by rwa [round, partition],
      by rwa [round, partition]⟩
  | decides idle partition round => exact timely.decide idle _ _ _ partition round
  | installs round partition idle => exact timely.install round partition idle
  | @prunes now idle partition round =>
    have kept (id : String) (st : SagaState) (found : next.partition.sagas.get id = some st) :
        proc.partition.sagas.get id = some st := by
      rw [partition] at found
      exact pruneLoop_get _ _ _ _ id st found
    have wheel : next.partition.wheel = proc.partition.wheel := by rw [partition]; rfl
    refine ⟨fun id st found => timely.keyed id st (kept id st found), wheel ▸ timely.wheel,
      by simp [round], fun id st found => ⟨fun live _ => ?_, fun done => ?_⟩⟩
    · rw [wheel]
      exact (timely.lists id st (kept id st found)).1 live (by simp [idle])
    · rw [partition] at found ⊢
      exact pruneLoop_queue _ _ (fun id st found => (timely.lists id st found).2) id st found done

/-- The clock of a process that starts reads after the Unix epoch. -/
def Act.Dated : Act → Prop
  | .start now => 0 ≤ unixNano now
  | _ => True

omit [Digest] in
theorem Process.Timely.start (replayed : replayOnce o server = .ok r)
    (clock : 0 ≤ unixNano now) (object : String) :
    Process.Timely { partition := replayPartition o r now, snapshotObject := object } := by
  obtain ⟨wheel, lists⟩ := replayPartition_lists (o := o) r now clock
  refine ⟨replayOnce_keys replayed, wheel, nofun, fun id st found => ?_⟩
  exact ⟨fun live _ => (lists id st found).1 live, (lists id st found).2⟩

/-- The process of the deployment lists its sagas. -/
def Deployment.Timely (d : Deployment) : Prop := ∀ proc, d.process = some proc → proc.Timely

theorem Deployment.Timely.step (d : Deployment) (act : Act) (dated : act.Dated) (timely : d.Timely) :
    (d.step o act).Timely := by
  unfold Deployment.step
  split
  · exact timely
  · exact timely
  · split
    · exact timely
    rename_i r replayed
    split
    · exact timely
    intro proc running
    cases running
    exact .start replayed dated _
  · rename_i running
    intro next after
    exact (timely _ running).moves (Deployment.work_moves _ running after)
  · exact timely

end machine

/-- No live saga loses its timer and no finished one its place in the prune queue:
between rounds every saga is listed, and a saga whose time has come is fired in the very
round, on the state the inputs of the round left, with an event if it is still due. -/
theorem timers_kept [Digest] (o : Options) (acts : List Act) (dated : ∀ act ∈ acts, act.Dated)
    (proc : Process) (running : (run (Deployment.step o) {} acts).process = some proc)
    (idle : proc.publishing = none) :
    (∀ id st, proc.partition.sagas.get id = some st → proc.partition.Lists id st) ∧
    ∀ registry batch now id st, proc.partition.sagas.get id = some st →
      st.record.status.terminal = false →
      unixNano st.record.nextRunAt ≤ unixNano now →
      let inputs := proc.partition.inputs o registry batch now
      let round := (proc.partition.decide o registry batch now).1
      id ∈ (proc.partition.wheel.advance now).2 ∧
      ∃ current, inputs.get proc.partition id = some current ∧
        (inputs.overlay.get id = none → current = st) ∧
        round.get proc.partition id = some (current.fired registry now) ∧
        (current.record.status.terminal = false →
          unixNano current.record.nextRunAt ≤ unixNano now →
          ∃ ev ∈ round.events, ev.saga = current.fired registry now) := by
  have timely : proc.Timely := invariant_along (P := Deployment.Timely) Deployment.Timely.step
    (fun proc running => by contradiction) (along_of_forall dated) proc running
  have round : proc.round = none := by simp [Process.round, idle]
  have lists (id : String) (st : SagaState) (found : proc.partition.sagas.get id = some st) :
      proc.partition.Lists id st := by
    obtain ⟨waits, queued⟩ := timely.lists id st found
    exact ⟨fun live => waits live (by simp [round]), queued⟩
  refine ⟨lists, fun registry batch now id st found live ripe => ?_⟩
  have due := ((Wheel.advance_exact timely.wheel now).2 id).mpr
    ⟨_, (lists id st found).1 live, ripe, rfl⟩
  obtain ⟨current, held, same⟩ :
      ∃ current, (proc.partition.inputs o registry batch now).get proc.partition id = some current ∧
        ((proc.partition.inputs o registry batch now).overlay.get id = none → current = st) := by
    unfold Round.get
    cases written : (proc.partition.inputs o registry batch now).overlay.get id with
    | none => exact ⟨st, found, fun _ => rfl⟩
    | some current => exact ⟨current, rfl, nofun⟩
  have fires := Partition.decide_fires o registry timely.keyed batch now due
  rw [held] at fires
  refine ⟨due, current, held, same, fires, fun live ripe => ?_⟩
  have indexed := Partition.decide_indexed o registry timely.keyed batch now
  obtain ⟨final, overlay⟩ := isSome_iff_exists.mp
    (Partition.decide_overlay o registry timely.keyed batch now due held live ripe)
  obtain ⟨i, here⟩ := indexed.covered id final overlay
  obtain ⟨ev, event, -, last⟩ := indexed.last id i here
  refine ⟨ev, mem_of_getElem? event, ?_⟩
  simp only [Round.get, last, map_some, some.injEq] at fires
  exact fires

theorem timers_kept_waiting :
    ∃ proc, (run (@Deployment.step Digest.tail Sample.options) {} Sample.opening).process =
        some proc ∧
      proc.partition.sagas.pairs.map (·.2.record.status) = [.waiting] ∧
      ∀ id st, proc.partition.sagas.get id = some st → proc.partition.Lists id st := by
  have dated : ∀ act ∈ Sample.opening, act.Dated := by
    have clock : 0 ≤ unixNano Sample.now := by decide
    simp [Sample.opening, Act.Dated, clock]
  exact ⟨_, rfl, by decide +kernel,
    (@timers_kept Digest.tail Sample.options Sample.opening dated _ rfl rfl).1⟩

end Roost.Saga
