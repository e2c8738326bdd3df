import RoostCore.Saga.Partition
import RoostCore.Saga.Traces

/-! What a round can do. Every input and every timer either leaves the sagas as they
are or changes one of them by one move, with one event for the change. Facts about
rounds are derived from that. -/
namespace Roost.Saga
open Go List Option Round

/-- Two rounds that differ in verdicts, counts and the input watermark only. -/
structure Round.Same (r next : Round) : Prop where
  now : next.now = r.now
  overlay : next.overlay = r.overlay
  touched : next.touched = r.touched
  events : next.events = r.events
  eventAt : next.eventAt = r.eventAt

theorem Round.Same.refl (r : Round) : r.Same r := ⟨rfl, rfl, rfl, rfl, rfl⟩

theorem Round.Same.trans {a b c : Round} (first : a.Same b) (second : b.Same c) : a.Same c :=
  ⟨second.now.trans first.now, second.overlay.trans first.overlay,
    second.touched.trans first.touched, second.events.trans first.events,
    second.eventAt.trans first.eventAt⟩

theorem Round.verdict_same (r : Round) (v : PendingVerdict) : r.Same (r.verdict v) := by
  unfold verdict
  split
  · exact .refl r
  · exact ⟨rfl, rfl, rfl, rfl, rfl⟩

theorem Round.count_same (r : Round) (change : PartitionCounts → PartitionCounts) :
    r.Same (r.count change) := ⟨rfl, rfl, rfl, rfl, rfl⟩

theorem Round.judged_same : Round.Same r ((r.count change).verdict v) :=
  (r.count_same _).trans (verdict_same _ _)

variable [Digest]

/-- What an input asks of one saga: it is created, or it makes a move. `kind` is that of
the event. -/
inductive Asked (o : Options) (registry : Registry) (now : Time) (msg : InputMsg) :
    Option SagaState → SagaState → String → Prop where
  | start {input request record attempt}
      (prepared : prepareStart input o.maxPayload = .ok request)
      (created : newStartRecord request (Digest.id request.type request.businessKey) msg.lifecycle
        now = .ok record)
      (owned : o.layout.partitionOf (Digest.id request.type request.businessKey) = o.k) :
      Asked o registry now msg none { record := { record with startAttempt := attempt } } "start"
  | result {st c turn kind} (res : msg.kind = .res)
      (decoded : decodeResultInput o.maxPayload msg.data = .ok c) (named : st.record.id = c.sagaID)
      (lifecycle : ofLifecycle c st.record.lifecycle = true) (known : kind ∈ eventKinds)
      (move : Move st (registry st.record.type st.record.definitionVersion)
        (.result { c with completedAt := now }) turn) :
      Asked o registry now msg (some st) turn.next kind
  | resume {st request clock turn} (time : clock ≠ 0)
      (move : Move st (registry st.record.type st.record.definitionVersion)
        (.resume request clock now) turn) :
      Asked o registry now msg (some st) turn.next "resume"
  | compensate {st reason clock turn} (time : clock ≠ 0) (short : reason.utf8ByteSize ≤ 4096)
      (move : Move st (registry st.record.type st.record.definitionVersion)
        (.compensate reason clock now) turn) :
      Asked o registry now msg (some st) turn.next "compensate"

/-- The change of one saga by an input or by its timer, with the command of the event. -/
inductive Change (o : Options) (registry : Registry) (now : Time) :
    Option SagaState → SagaState → String → Option Command → Prop where
  | asked {msg before st kind} (asked : Asked o registry now msg before st kind) :
      Change o registry now before st kind none
  | due {st} (live : st.record.status.terminal = false)
      (ripe : Time.unixNano st.record.nextRunAt ≤ Time.unixNano now) :
      Change o registry now (some st)
        (st.due (registry st.record.type st.record.definitionVersion) now).1
        (eventKindOf (planDue st.record
          (registry st.record.type st.record.definitionVersion) now).cause)
        ((planDue st.record (registry st.record.type st.record.definitionVersion) now).command.map
          fun command => { command with partition := o.k % 2 ^ 16 })

inductive Round.Step (o : Options) (registry : Registry) (p : Partition) (r next : Round) : Prop where
  | quiet (same : r.Same next)
  | write {st kind command}
      (change : Change o registry r.now (r.get p st.record.id) st kind command)
      (same : (r.write o st kind command).Same next)

inductive Round.Answers (o : Options) (registry : Registry) (p : Partition) (msg : InputMsg)
    (r next : Round) : Prop where
  | quiet (same : r.Same next)
  | write {st kind} (asked : Asked o registry r.now msg (r.get p st.record.id) st kind)
      (same : (r.write o st kind none).Same next)

theorem Round.Answers.step {r next : Round} (answers : r.Answers o registry p msg next) :
    r.Step o registry p next := by
  cases answers with
  | quiet same => exact .quiet same
  | write asked same => exact .write (.asked asked) same

omit [Digest] in
theorem Round.Same.write {r next : Round} (same : r.Same next) (o : Options) (st : SagaState)
    (kind : String) (command : Option Command) :
    (r.write o st kind command).Same (next.write o st kind command) := by
  obtain ⟨now, overlay, touched, events, eventAt⟩ := same
  simp only [Round.write, Round.emit, Round.put, now, overlay, touched, events, eventAt]
  split <;> exact ⟨rfl, rfl, rfl, rfl, rfl⟩

omit [Digest] in
theorem Round.Same.get {r next : Round} (same : r.Same next) (p : Partition) :
    next.get p = r.get p := by
  funext id
  unfold Round.get
  rw [same.overlay]

theorem Round.Answers.of_same {r middle next : Round} (same : r.Same middle)
    (answers : middle.Answers o registry p msg next) : r.Answers o registry p msg next := by
  cases answers with
  | quiet after => exact .quiet (same.trans after)
  | write asked after =>
    rw [same.get p, same.now] at asked
    exact .write asked ((same.write o _ _ _).trans after)

/-- Every saga is found under its own ID. -/
def Round.Keyed (p : Partition) (r : Round) : Prop :=
  ∀ id st, r.get p id = some st → st.record.id = id

/-- A result that changes its saga makes a move, with the event of its verdict. -/
theorem concluded_answers {r : Round} (found : r.get p st.record.id = some st)
    (changes : ∀ kind ∈ eventKinds, ∀ turn,
      Move st (registry st.record.type st.record.definitionVersion) (.result c) turn →
      Asked o registry r.now msg (some st) turn.next kind) :
    r.Answers o registry p msg (r.concluded o st.record
      (st.result (registry st.record.type st.record.definitionVersion) c)) := by
  have move := turn_move 0 st (registry st.record.type st.record.definitionVersion) (.result c)
  have same := move_identity move
  have write (kind : String) (next : SagaState) (known : kind ∈ eventKinds)
      (turn : ((st.result (registry st.record.type st.record.definitionVersion) c).turn st c).next =
        next) {after : Round} (count : (r.write o next kind none).Same after) :
      r.Answers o registry p msg after := by
    have named : next.record.id = st.record.id := turn ▸ congrArg Identity.id same
    have changed := turn ▸ changes kind known _ move
    exact .write (by rw [named, found]; exact changed) count
  cases outcome : st.result (registry st.record.type st.record.definitionVersion) c with
  | accepted next => exact write "result" next (by decide) (by rw [outcome]; rfl) ⟨rfl, rfl, rfl, rfl, rfl⟩
  | lateStep next => exact write "late_success" next (by decide) (by rw [outcome]; rfl) ⟨rfl, rfl, rfl, rfl, rfl⟩
  | lateAlarm next => exact write "late_alarm" next (by decide) (by rw [outcome]; rfl) ⟨rfl, rfl, rfl, rfl, rfl⟩
  | _ => exact .quiet ⟨rfl, rfl, rfl, rfl, rfl⟩

section steps
variable (o : Options) (registry : Registry) {p : Partition} {r : Round}

theorem Round.start_answers (msg : InputMsg) :
    r.Answers o registry p msg (r.start o registry p msg) := by
  unfold start
  split
  · exact .quiet judged_same
  dsimp only
  split
  · exact .quiet (r.verdict_same _)
  rename_i request prepared
  split
  · exact .quiet (r.verdict_same _)
  split
  · exact .quiet judged_same
  rename_i record checked
  have created : newStartRecord request (Digest.id request.type request.businessKey)
      msg.lifecycle r.now = .ok record := by
    simp only [bind, Except.bind] at checked
    split at checked
    · contradiction
    rename_i fresh made
    split at checked
    · contradiction
    · rw [made, ← Except.ok.inj checked]
  split
  · exact .quiet judged_same
  rename_i owned
  split
  · exact .quiet (r.verdict_same _)
  rename_i absent
  split
  · exact .quiet judged_same
  refine .write ?_ judged_same
  have free : r.get p record.id = none := (newStartRecord_fresh created).id ▸ absent
  rw [free]
  exact .start prepared created (not_not.mp owned)

theorem Round.result_answers (keyed : r.Keyed p) (msg : InputMsg) (res : msg.kind = .res) :
    r.Answers o registry p msg (r.result o registry p msg) := by
  unfold result
  split
  · exact .quiet (r.count_same _)
  rename_i c decoded
  dsimp only
  split
  · exact .quiet (r.count_same _)
  split
  · exact .quiet (r.count_same _)
  rename_i st found
  split
  · exact .quiet (r.count_same _)
  rename_i lifecycle
  have named := keyed _ _ found
  refine concluded_answers (named ▸ found) fun kind known turn move => ?_
  exact .result res decoded named (not_not.mp lifecycle) known move

theorem operated_answers (found : r.get p st.record.id = some st)
    (move : Move st (registry st.record.type st.record.definitionVersion) event
      { next := outcome.next.getD st })
    (change : ∀ turn, Move st (registry st.record.type st.record.definitionVersion) event turn →
      Asked o registry r.now msg (some st) turn.next kind) (input : OpInput) (reply : String) :
    r.Answers o registry p msg (r.operated o input reply st.record kind outcome) := by
  cases outcome with
  | applied next =>
    have named : next.record.id = st.record.id := congrArg Identity.id (move_identity move)
    refine .write ?_ judged_same
    rw [named, found]
    exact change _ move
  | _ => exact .quiet (r.verdict_same _)

theorem Round.operation_answers (keyed : r.Keyed p) (msg : InputMsg) :
    r.Answers o registry p msg (r.operation o registry p msg) := by
  unfold operation
  split
  · exact .quiet judged_same
  rename_i input decoded
  split
  · exact .quiet (r.verdict_same _)
  rename_i st found
  have found : r.get p st.record.id = some st := (keyed _ _ found).symm ▸ found
  obtain ⟨time, short⟩ := decodeOpInput_valid decoded
  split
  · rename_i request _ _
    have move := (turn_move o.receiptRetention st · (.resume request input.now r.now))
    exact operated_answers o registry found (move _) (fun turn move => .resume time move) _ _
  · rename_i compensates
    have move := (turn_move o.receiptRetention st · (.compensate input.reason input.now r.now))
    exact operated_answers o registry found (move _)
      (fun turn move => .compensate time (short compensates) move) _ _
  · exact .quiet (.refl r)

theorem Round.input_answers (keyed : r.Keyed p) (msg : InputMsg) :
    r.Answers o registry p msg (r.input o registry p msg) := by
  unfold input
  split
  · exact .quiet (.refl r)
  have same : r.Same { r with maxIn := max r.maxIn msg.seq } := ⟨rfl, rfl, rfl, rfl, rfl⟩
  have keyed : Round.Keyed p { r with maxIn := max r.maxIn msg.seq } := keyed
  split
  · exact .of_same same (start_answers o registry msg)
  · rename_i res
    exact .of_same same (result_answers o registry keyed msg res)
  · exact .of_same same (operation_answers o registry keyed msg)
  · exact .quiet (same.trans (count_same _ _))

theorem Round.input_step (keyed : r.Keyed p) (msg : InputMsg) :
    r.Step o registry p (r.input o registry p msg) := (input_answers o registry keyed msg).step

theorem Round.timer_step (keyed : r.Keyed p) (id : String) :
    r.Step o registry p (r.timer o registry p id) := by
  unfold timer
  split
  · exact .quiet (.refl r)
  rename_i st found
  split
  · exact .quiet (.refl r)
  rename_i ripe
  simp only [not_or, Bool.not_eq_true, Int.not_lt] at ripe
  have named : (st.due (registry st.record.type st.record.definitionVersion) r.now).1.record.id =
      id := (congrArg Identity.id (planDue_quiet _ _ _).identity).trans (keyed _ _ found)
  have prior := (congrArg (r.get p) named).trans found
  refine .write ?_ ⟨rfl, rfl, rfl, rfl, rfl⟩
  change Change o registry r.now (r.get p (st.due _ r.now).1.record.id) _ _ _
  rw [prior]
  exact .due ripe.1 ripe.2

end steps

section writes
variable {o : Options} {registry : Registry} {p : Partition} {r : Round}

def Round.eventOf (o : Options) (r : Round) (st : SagaState) (kind : String)
    (command : Option Command) : LogEvent :=
  { v := 0, part := o.k, writer := o.writer, in_ := 0, at_ := r.now, kind, saga := st,
    command }

/-- A write appends its event or replaces the last event of its saga, which then
carried no command and did not end the saga. -/
inductive Round.Writes (r : Round) (id : String) (ev : LogEvent) (events : List LogEvent)
    (eventAt : Table String Nat) : Prop where
  | append (events_eq : events = r.events ++ [ev])
      (at_eq : eventAt = r.eventAt.set id r.events.length)
  | replace {i prior} (indexed : r.eventAt.get id = some i) (found : r.events[i]? = some prior)
      (open_ : prior.command = none ∧ prior.saga.record.status.terminal = false)
      (events_eq : events = r.events.set i ev) (at_eq : eventAt = r.eventAt)

omit [Digest] in
theorem Round.write_writes (st : SagaState) (kind : String) (command : Option Command) :
    r.Writes st.record.id (r.eventOf o st kind command) (r.write o st kind command).events
      (r.write o st kind command).eventAt := by
  unfold write emit
  dsimp only [put]
  split
  · rename_i i replaced
    obtain ⟨indexed, open_⟩ := filter_eq_some_iff.mp replaced
    cases found : r.events[i]? with
    | none => simp [found] at open_
    | some prior =>
      refine .replace indexed found ?_ rfl rfl
      simpa [found] using open_
  · exact .append rfl rfl

omit [Digest] in
theorem Round.write_overlay (st : SagaState) (kind : String) (command : Option Command) :
    (r.write o st kind command).overlay = r.overlay.set st.record.id st ∧
      (r.write o st kind command).now = r.now ∧
      (r.write o st kind command).touched =
        if (r.overlay.get st.record.id).isSome then r.touched else r.touched ++ [st.record.id] := by
  unfold write emit
  dsimp only [put]
  split <;> exact ⟨rfl, rfl, rfl⟩

omit [Digest] in
theorem Round.write_get (p : Partition) (st : SagaState) (kind : String)
    (command : Option Command) (id : String) :
    (r.write o st kind command).get p id = if id = st.record.id then some st else r.get p id := by
  unfold get
  rw [(write_overlay st kind command).1, Table.get_set]
  by_cases here : id = st.record.id <;> simp only [here, if_true, if_false]

theorem Round.Step.keyed (step : r.Step o registry p new) (keyed : r.Keyed p) : new.Keyed p := by
  cases step with
  | quiet same =>
    intro id st found
    rw [same.get p] at found
    exact keyed id st found
  | write change same =>
    intro id st found
    rw [same.get p, write_get] at found
    split at found
    · rename_i here
      rw [← some.inj found]
      exact here.symm
    · exact keyed id st found

/-- The overlay and the events tell the same: the saga of the overlay is the one of its
last event, and the touched sagas are those of the overlay. -/
structure Round.Indexed (r : Round) : Prop where
  last : ∀ id i, r.eventAt.get id = some i → ∃ ev, r.events[i]? = some ev ∧
    ev.saga.record.id = id ∧ r.overlay.get id = some ev.saga
  indexed : ∀ j ev, r.events[j]? = some ev → ∃ i, r.eventAt.get ev.saga.record.id = some i ∧ j ≤ i
  covered : ∀ id st, r.overlay.get id = some st → ∃ i, r.eventAt.get id = some i
  touched : ∀ id, id ∈ r.touched ↔ ∃ st, r.overlay.get id = some st
  distinct : r.touched.Nodup

omit [Digest] in
theorem Partition.newRound_indexed (p : Partition) (now : Time) : (p.newRound now).Indexed := by
  constructor <;> simp [Partition.newRound]

omit [Digest] in
theorem Round.Same.indexed (same : r.Same new) (indexed : r.Indexed) : new.Indexed := by
  obtain ⟨last, here, covered, touched, distinct⟩ := indexed
  refine ⟨?_, ?_, ?_, ?_, ?_⟩
  · rw [same.eventAt, same.events, same.overlay]
    exact last
  · rw [same.eventAt, same.events]
    exact here
  · rw [same.eventAt, same.overlay]
    exact covered
  · rw [same.touched, same.overlay]
    exact touched
  · rw [same.touched]
    exact distinct

omit [Digest] in
/-- The events after a write, and where they are indexed. -/
theorem Round.Writes.indexed {id : String} {events : List LogEvent} {eventAt : Table String Nat}
    (writes : r.Writes id ev events eventAt) (indexed : r.Indexed) (named : ev.saga.record.id = id) :
    (∃ i, eventAt.get id = some i ∧ events[i]? = some ev ∧
      ∀ (j : Nat) (other : LogEvent), events[j]? = some other → other.saga.record.id = id → j ≤ i) ∧
    (∀ other, other ≠ id → eventAt.get other = r.eventAt.get other) ∧
    (∀ (j : Nat) (other : LogEvent), other.saga.record.id ≠ id →
      (events[j]? = some other ↔ r.events[j]? = some other)) := by
  cases writes with
  | append events_eq at_eq =>
    subst events_eq at_eq
    refine ⟨⟨r.events.length, Table.get_set_self _ _ _, by simp, fun j other found _ => ?_⟩,
      fun other distinct => Table.get_set_ne _ _ distinct, fun j other foreign => ?_⟩
    · have bound := (List.getElem?_eq_some_iff.mp found).1
      simp only [length_append, length_singleton] at bound
      omega
    · rw [getElem?_append]
      split
      · rfl
      rename_i beyond
      have none : r.events[j]? = none := getElem?_eq_none (Nat.not_lt.mp beyond)
      rw [none]
      constructor
      · intro found
        have member := mem_of_getElem? found
        rw [mem_singleton] at member
        exact absurd (member ▸ named) foreign
      · exact nofun
  | @replace i prior here found open_ events_eq at_eq =>
    subst events_eq at_eq
    obtain ⟨bound, -⟩ := List.getElem?_eq_some_iff.mp found
    obtain ⟨own, ownFound, ownNamed, -⟩ := indexed.last id i here
    refine ⟨⟨i, here, by simp [bound], fun j other otherFound otherNamed => ?_⟩, fun _ _ => rfl,
      fun j other foreign => ?_⟩
    · by_cases same : i = j
      · exact Nat.le_of_eq same.symm
      rw [getElem?_set_ne same] at otherFound
      obtain ⟨k, known, before⟩ := indexed.indexed j other otherFound
      rw [otherNamed, here] at known
      exact some.inj known ▸ before
    · by_cases same : i = j
      · subst same
        rw [getElem?_set_self bound, ownFound]
        constructor
        · intro new
          exact absurd (some.inj new ▸ named) foreign
        · intro old
          exact absurd (some.inj old ▸ ownNamed) foreign
      · rw [getElem?_set_ne same]

omit [Digest] in
theorem Round.Indexed.write (indexed : r.Indexed) (o : Options) (st : SagaState) (kind : String)
    (command : Option Command) : (r.write o st kind command).Indexed := by
  obtain ⟨overlay, -, touched⟩ := write_overlay (o := o) (r := r) st kind command
  obtain ⟨⟨i, here, found, most⟩, elsewhere, others⟩ :=
    (write_writes (o := o) (r := r) st kind command).indexed indexed rfl
  refine ⟨fun id j known => ?_, fun j ev known => ?_, fun id other known => ?_, fun id => ?_, ?_⟩
  · rw [overlay, Table.get_set]
    by_cases same : id = st.record.id
    · subst same
      cases some.inj (here.symm.trans known)
      exact ⟨_, found, rfl, if_pos rfl⟩
    · rw [elsewhere id same] at known
      obtain ⟨ev, before, named, stored⟩ := indexed.last id j known
      exact ⟨ev, (others j ev (named ▸ same)).mpr before, named, by rw [if_neg same, stored]⟩
  · by_cases same : ev.saga.record.id = st.record.id
    · exact ⟨i, same ▸ here, most j ev known same⟩
    · rw [elsewhere _ same]
      exact indexed.indexed j ev ((others j ev same).mp known)
  · rw [overlay, Table.get_set] at known
    by_cases same : id = st.record.id
    · exact ⟨i, same ▸ here⟩
    rw [if_neg same] at known
    rw [elsewhere id same]
    exact indexed.covered id other known
  · rw [overlay, touched, Table.get_set]
    by_cases same : id = st.record.id
    · subst same
      simp only [if_true, some.injEq, exists_eq', iff_true]
      split
      · rename_i present
        exact (indexed.touched _).mpr (isSome_iff_exists.mp present)
      · exact mem_append_right _ mem_cons_self
    · rw [if_neg same, ← indexed.touched id]
      split
      · rfl
      · simp [same]
  · rw [touched]
    split
    · exact indexed.distinct
    rename_i absent
    refine nodup_append.mpr ⟨indexed.distinct, nodup_singleton _, ?_⟩
    intro id member other single same
    rw [mem_singleton] at single
    subst single same
    obtain ⟨prior, stored⟩ := (indexed.touched _).mp member
    simp [stored] at absent

theorem Round.Step.indexed (step : r.Step o registry p new) (indexed : r.Indexed) :
    new.Indexed := by
  cases step with
  | quiet same => exact same.indexed indexed
  | write change same => exact same.indexed (indexed.write o _ _ _)

end writes

section rounds
open Relation
variable (o : Options) (registry : Registry) {p : Partition} {r : Round}

theorem Round.reaches_keyed (path : ReflTransGen (Round.Step o registry p) r new)
    (keyed : r.Keyed p) : new.Keyed p := by
  induction path with
  | refl => exact keyed
  | tail _ step ih => exact step.keyed ih

theorem Round.inputs_reaches (keyed : r.Keyed p) (batch : List InputMsg) :
    ReflTransGen (Round.Step o registry p) r (batch.foldl (input o registry p) r) := by
  induction batch generalizing r with
  | nil => exact .refl
  | cons msg rest ih =>
    have step := input_step o registry keyed msg
    exact .head step (ih (step.keyed keyed))

theorem Round.timers_reaches (keyed : r.Keyed p) (seen due : List String) :
    ReflTransGen (Round.Step o registry p) r (timers o registry p seen due r) := by
  induction due generalizing r seen with
  | nil => exact .refl
  | cons id rest ih =>
    unfold timers
    split
    · exact ih keyed seen
    · have step := timer_step o registry keyed id
      exact .head step (ih (step.keyed keyed) _)

/-- Every saga of the partition is stored under its own ID. -/
def Partition.Keyed (p : Partition) : Prop := ∀ id st, p.sagas.get id = some st → st.record.id = id

theorem Partition.decide_reaches (keyed : p.Keyed) (batch : List InputMsg) (now : Time) :
    ReflTransGen (Round.Step o registry p) (p.newRound now) (p.decide o registry batch now).1 := by
  have start : (p.newRound now).Keyed p := by
    intro id st found
    exact keyed id st found
  have inputs := inputs_reaches o registry start batch
  exact inputs.trans (timers_reaches o registry (reaches_keyed o registry inputs start) _ _)

/-- What the committed state has and every step keeps holds of the whole round. -/
theorem Partition.decide_keeps {P : Round → Prop} (keyed : p.Keyed) (batch : List InputMsg)
    (now : Time) (start : P (p.newRound now))
    (kept : ∀ r next, Round.Step o registry p r next → P r → P next) :
    P (p.decide o registry batch now).1 := by
  have path := Partition.decide_reaches o registry keyed batch now
  generalize (p.decide o registry batch now).1 = final at path
  induction path with
  | refl => exact start
  | tail _ step ih => exact kept _ _ step ih

theorem Partition.decide_indexed (keyed : p.Keyed) (batch : List InputMsg) (now : Time) :
    (p.decide o registry batch now).1.Indexed :=
  decide_keeps o registry keyed batch now (p.newRound_indexed now) fun _ _ step => step.indexed

end rounds

end Roost.Saga
