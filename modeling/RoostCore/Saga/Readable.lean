import RoostCore.Saga.Form
import RoostCore.Saga.Commit

/-! Every event of a round can be read back. The sagas of a partition are fit: their
states pass the checks of the decoder and stay so under every move. -/
namespace Roost.Saga
open Go

structure Fit (st : SagaState) : Prop where
  ledger : Ledger st
  budget : Budget st.record
  known : Known st
  bounded : Bounded (4 <<< 20) st.record.payloads
  filled : Filled st.record
  reach : Reach st.record
  within : Within st
  receipted : Receipted st
  free : Unburdened st.record
  identity : st.record.identity.Valid

/-- The clauses that follow from where the record stands. -/
theorem Placed.lateStepValid (placed : Placed r) (free : Unburdened r)
    (bounded : Bounded (4 <<< 20) r.payloads) : r.lateStepValid = true := by
  unfold Record.lateStepValid
  split
  · rename_i none
    rw [free (by simpa using none)]
    rfl
  rename_i late
  have counted := placed.counted
  have nonneg := counted.late_nonneg
  have positive : 0 < r.lateStep := by
    have : r.lateStep ≠ 0 := by simpa using late
    omega
  have outside := counted.late_outside positive
  have standing := placed.standing
  have data : r.lateData.length ≤ 4194304 := bounded.2
  have room : r.completedSteps ≤ r.lateStep - 1 := by omega
  unfold Standing at standing
  cases status : r.status <;> simp only [status] at standing
  case waiting =>
    rcases standing.2 with ahead | behind
    · omega
    · simp [positive, room, data, behind.1]
  case compensating => simp [positive, room, data, standing.1]
  case manualRequired => simp [positive, room, data]
  all_goals omega

theorem Placed.compensating (placed : Placed r) (status : r.status = .compensating) :
    r.phase = .compensate ∧ (r.completedSteps ≠ 0 ∨ r.lateStep ≠ 0) := by
  have standing := placed.standing
  simp only [Standing, status] at standing
  refine ⟨standing.1, ?_⟩
  rcases standing.2 with late | completed
  · exact .inr (Int.ne_of_gt late.1)
  · exact .inl (Int.ne_of_gt completed.1)

theorem Placed.compensated (placed : Placed r) (status : r.status = .compensated) :
    r.completedSteps = 0 := by
  have standing := placed.standing
  simp only [Standing, status] at standing
  exact standing.2.1

theorem Filled.waiting_iff (filled : Filled r) : (r.status == .waiting) = r.waitingFields := by
  by_cases waiting : r.status = .waiting
  · rw [filled.waits waiting]
    simpa using waiting
  · simp [Record.waitingFields, (filled.idle waiting).1, waiting]

theorem Fit.wellFormed (fit : Fit st) : st.record.wellFormed = true := by
  have placed := fit.ledger.placed
  have filled := fit.filled
  have identity := fit.identity
  have id : validSubjectToken st.record.id 128 = true := identity.token
  have lifecycle : validLifecycle st.record.lifecycle = true := identity.lifecycle
  have type : validName st.record.type 128 = true := identity.type
  have version : st.record.definitionVersion ≠ 0 := identity.version
  have businessKey : validName st.record.businessKey 512 = true := identity.businessKey
  have created : st.record.createdAt ≠ 0 := identity.created
  have data : st.record.data.length ≤ 4194304 := fit.bounded.1
  have next : st.record.status.terminal = true ∨ st.record.nextRunAt ≠ 0 := by
    cases live : st.record.status.terminal with
    | true => exact .inl rfl
    | false => exact .inr (filled.next live)
  have idle : st.record.waitingFields = true ∨
      (st.record.operationKey = "" ∧ st.record.commandID = "") := by
    by_cases waiting : st.record.status = .waiting
    · exact .inl (filled.waits waiting)
    · exact .inr (filled.idle waiting)
  have compensating : st.record.status ≠ .compensating ∨
      (st.record.phase = .compensate ∧
        (st.record.completedSteps ≠ 0 ∨ st.record.lateStep ≠ 0)) :=
    or_iff_not_imp_left.mpr fun here => placed.compensating (not_not.mp here)
  have compensated : st.record.status ≠ .compensated ∨ st.record.completedSteps = 0 :=
    or_iff_not_imp_left.mpr fun here => placed.compensated (not_not.mp here)
  unfold Record.wellFormed
  rw [filled.waiting_iff]
  simp [id, lifecycle, type, version, businessKey, data, filled.error, filled.version,
    filled.step, placed.counted.completed_nonneg, Time.isZero, created, filled.updated, next, idle,
    compensating, compensated, placed.lateStepValid fit.free fit.bounded]

theorem Fit.validate (fit : Fit st) : st.validate = .ok () := by
  unfold SagaState.validate
  rw [if_neg (by simp [fit.wellFormed]), if_neg, if_neg]
  · rw [List.any_eq_true]
    rintro ⟨⟨command, digest⟩, member, wrong⟩
    obtain ⟨named, size⟩ := fit.receipted command digest (Table.mem_pairs.mp member)
    simp [named, size] at wrong
  · rw [List.any_eq_true]
    rintro ⟨⟨op, tomb⟩, member, wrong⟩
    have found := Table.mem_pairs.mp member
    obtain ⟨phase, i, small, named⟩ := fit.within op tomb found
    have parsed := parseOperationKey_operationKey st.record phase i
    rw [if_pos (Nat.lt_trans small (by decide))] at parsed
    have closure := fit.known op tomb found
    simp only [named, SagaState.operation, parsed, knownClosure] at wrong
    cases kind : tomb.closure <;> simp_all

/-- What a record that passed `Record.Validate` is known to have filled in. -/
theorem Filled.of_wellFormed (valid : r.wellFormed = true) : Filled r := by
  simp only [Record.wellFormed, Bool.and_eq_true, Bool.or_eq_true, Bool.not_eq_true',
    decide_eq_true_eq, bne_iff_ne, ne_eq, beq_iff_eq, Time.isZero, beq_eq_false_iff_ne] at valid
  obtain ⟨⟨⟨⟨⟨⟨⟨⟨⟨⟨-, error⟩, version⟩, step⟩, -⟩, -⟩, updated⟩, next⟩, waits⟩, idle⟩, -⟩ := valid.1.1
  refine ⟨⟨version, updated, step, error⟩, fun live => ?_, fun other => idle.resolve_left other,
    fun waiting => ?_⟩
  · exact next.resolve_left (by simp [live])
  · rw [← waits]
    simpa using waiting

theorem Identity.Valid.of_wellFormed {r : Record} (valid : r.wellFormed = true)
    (size : r.id.utf8ByteSize = 32) : r.identity.Valid := by
  simp only [Record.wellFormed, Bool.and_eq_true, Bool.or_eq_true, Bool.not_eq_true',
    decide_eq_true_eq, bne_iff_ne, ne_eq, beq_iff_eq, Time.isZero, beq_eq_false_iff_ne] at valid
  obtain ⟨⟨⟨⟨⟨⟨⟨⟨⟨⟨⟨⟨⟨⟨token, lifecycle⟩, type⟩, version⟩, businessKey⟩, -⟩, -⟩, -⟩, -⟩, -⟩, created⟩,
    -⟩, -⟩, -⟩, -⟩ := valid.1.1.1
  exact ⟨token, size, lifecycle, type, version, businessKey, created⟩

section moves
variable [Digest] {st : SagaState}

theorem Fit.start {request : StartRequest} (attempt : String)
    (started : newStartRecord request (Digest.id type businessKey) lifecycle now = .ok record) :
    Fit { record := { record with startAttempt := attempt } } := by
  obtain ⟨valid, id, status, phase, step, completed, late, attempts, payloads⟩ :=
    newStartRecord_fresh started
  have issued := Issued.start started
  have size : record.id.utf8ByteSize = 32 := by
    rw [id]
    exact Digest.id_size _ _
  have filled := Filled.of_wellFormed valid
  have identity := Identity.Valid.of_wellFormed valid size
  have placed := newStartRecord_placed started
  have data : record.data.length ≤ 4 <<< 20 := by
    simp only [Record.wellFormed, Bool.and_eq_true, decide_eq_true_eq] at valid
    exact valid.1.1.1.1.1.1.1.1.1.1.1.1.2
  have lateData : record.lateData = [] := congrArg Prod.snd payloads
  refine ⟨⟨⟨placed.counted, placed.standing⟩, ?_, ?_, ?_, ?_⟩, .zero attempts, ?_, ⟨data, ?_⟩, ?_, ?_,
    ?_, ?_, fun _ => lateData, ?_⟩
  · exact issued.ledger.effective
  · exact issued.ledger.undone
  · exact issued.ledger.forward
  · exact issued.ledger.canonical
  · intro key tomb found
    simp at found
  · rw [lateData]
    exact Nat.zero_le _
  · exact { filled with }
  · exact ⟨by dsimp only; omega, by dsimp only; omega, fun _ _ => by dsimp only; omega⟩
  · intro key tomb found
    simp at found
  · intro command digest found
    simp at found
  · exact { identity with }

/-- The times and texts an event brings. -/
def Event.Sane : Event → Prop
  | .due now => 0 < now
  | .result c => 0 < c.completedAt ∧ c.wellFormed = true
  | .resume _ clock _ => clock ≠ 0
  | .compensate reason clock _ => clock ≠ 0 ∧ reason.utf8ByteSize ≤ 4096

omit [Digest] in
theorem prepareResume_now (prepared : prepareResume request clock = .ok (done, deadline))
    (time : clock ≠ 0) : done.now ≠ 0 := by
  have given : (if Time.isZero request.now then clock else request.now) ≠ 0 := by
    split
    · exact time
    · rename_i given
      simpa [Time.isZero] using given
  simp only [prepareResume] at prepared
  generalize (if Time.isZero request.now then clock else request.now) = now at prepared given
  split at prepared
  · contradiction
  split at prepared
  · contradiction
  · cases prepared
    exact given

omit [Digest] in
theorem Filled.written (filled : Filled after) : Filled (planTransition before after t).1 :=
  { filled with }

omit [Digest] in
theorem Completion.wellFormed_bounds {c : Completion} (valid : c.wellFormed = true) :
    c.commandID ≠ "" ∧ c.error.utf8ByteSize ≤ 4096 ∧ c.payload.length ≤ 4 <<< 20 := by
  simp only [Completion.wellFormed, Bool.and_eq_true, decide_eq_true_eq, bne_iff_ne] at valid
  exact ⟨valid.1.1.1.1.1.1.1, valid.1.1.2, valid.1.2⟩

theorem Fit.filled_move (fit : Fit st) (definitions : ∀ d, definition = some d → d.validate = .ok ())
    (sane : event.Sane) (move : Move st definition event turn) : Filled turn.next.record := by
  have placed := fit.ledger.placed
  cases move with
  | idle | alarm => exact fit.filled
  | due live =>
    exact (planDue_filled fit.filled fit.identity placed fit.reach fit.budget definitions live
      sane).written
  | accept defined accepts =>
    exact (applyCompletion_filled _ fit.filled sane.1
      (Completion.wellFormed_bounds sane.2).2.1).written
  | late abandoned forward =>
    obtain ⟨i, rfl, named, -⟩ := fit.ledger.late_step abandoned forward
    obtain ⟨phase, j, small, same⟩ := fit.within _ _ abandoned.found
    obtain ⟨-, rfl⟩ := operation_inj.mp (named.symm.trans same)
    exact (lateStepState_filled fit.filled (Int.ne_of_gt sane.1) small).written
  | resume prepared planned =>
    exact (planResume_filled fit.filled (prepareResume_now prepared sane) planned).written
  | compensate planned => exact (planCompensate_filled fit.filled sane.1 sane.2 planned).written

theorem Fit.move (fit : Fit st) (definitions : ∀ d, definition = some d → d.validate = .ok ())
    (sane : event.Sane) (move : Move st definition event turn) : Fit turn.next := by
  have placed := fit.ledger.placed
  refine ⟨(fit.ledger.closing move).1, fit.budget.move definitions move, fit.known.move move,
    fit.bounded.move move fun c result => ?_, fit.filled_move definitions sane move,
    fit.reach.move placed fit.within definitions fit.ledger move, fit.within.move placed fit.reach move,
    fit.receipted.move move fun c result => ?_, fit.free.move placed move,
    (move_identity move).symm ▸ fit.identity⟩
  · subst result
    exact (Completion.wellFormed_bounds sane.2).2.2
  · subst result
    exact (Completion.wellFormed_bounds sane.2).1

omit [Digest] in
theorem Step.topicFor_valid {step : Step} (valid : step.valid = true) (phase : Phase) :
    validSubject (step.topicFor phase) = true := by
  simp only [Step.valid, Bool.and_eq_true, Bool.or_eq_true, beq_iff_eq, bne_iff_ne] at valid
  obtain ⟨⟨⟨⟨⟨⟨⟨⟨-, forward⟩, own⟩, derived⟩, -⟩, -⟩, -⟩, -⟩, -⟩ := valid
  cases phase with
  | forward => exact forward
  | compensate =>
    simp only [Step.topicFor]
    split
    · rename_i none
      exact derived.resolve_left (not_not.mpr none)
    · rename_i named
      exact own.resolve_left named

omit [Digest] in
theorem Fit.command {command : Command} (fit : Fit st)
    (definitions : ∀ d, definition = some d → d.validate = .ok ())
    (live : st.record.status.terminal = false) (time : 0 < now)
    (dispatched : (planDue st.record definition now).command = some command) :
    command.wellFormed = true ∧ command.sagaID = st.record.id := by
  obtain ⟨d, step, defined, found, -, -, minted⟩ := planDue_command dispatched
  cases minted
  have valid := Definition.step_valid (definitions d defined) step (stepFor_mem found)
  have topic := Step.topicFor_valid valid st.record.phase
  simp only [Step.valid, Bool.and_eq_true, decide_eq_true_eq] at valid
  have name : validName step.name 128 = true := valid.1.1.1.1.1.1.1.1
  have deadline : now + step.timeout ≠ 0 := Int.ne_of_gt (Int.add_pos time valid.1.1.1.1.2)
  have sizes := attempt_size fit.identity fit.ledger.placed fit.reach live (st.record.attempt + 1)
  have nonempty : currentOperation st.record ≠ "" := operationKey_ne_empty _ _ _ _
  have positive : st.record.attempt + 1 ≠ 0 := by
    intro zero
    have grows := fit.budget.succ_attempt
    rw [zero] at grows
    exact absurd grows (UInt32.not_lt.mpr (UInt32.le_iff_toNat_le.mpr (Nat.zero_le _)))
  have token : validSubjectToken st.record.id 128 = true := fit.identity.token
  have type : validName st.record.type 128 = true := fit.identity.type
  have version : st.record.definitionVersion ≠ 0 := fit.identity.version
  have businessKey : validName st.record.businessKey 512 = true := fit.identity.businessKey
  have payload : (if compensatingLateStep st.record then st.record.lateData
      else st.record.data).length ≤ 4194304 := by
    split
    · exact fit.bounded.2
    · exact fit.bounded.1
  refine ⟨?_, rfl⟩
  simp [Command.wellFormed, sizes, nonempty, commandID_ne_empty, token, type, version, businessKey,
    fit.filled.step, name, positive, topic, payload, Time.isZero, deadline, Int.ne_of_gt time]

end moves

/-- A fit saga of this partition. -/
structure Held (o : Options) (st : SagaState) : Prop where
  fit : Fit st
  owned : o.layout.partitionOf st.record.id = o.k

/-- What `decodeEvent` asks of the content of an event. -/
structure LogEvent.Readable (o : Options) (ev : LogEvent) : Prop where
  part : ev.part = o.k
  writer : ev.writer = o.writer
  kind : ev.kind ∈ eventKinds
  held : Held o ev.saga
  command : ∀ c, ev.command = some c →
    c.wellFormed = true ∧ c.sagaID = ev.saga.record.id ∧ c.partition = o.k

theorem LogEvent.Readable.decodes (readable : ev.Readable o) :
    decodeEvent o.layout o.k (encodeEvent ev) = .ok (encodeEvent ev) := by
  have writer : ev.writer ≠ "" := readable.writer ▸ o.named
  have kind : eventKinds.contains ev.kind = true := List.contains_iff_mem.mpr readable.kind
  have part := readable.part
  have owned := readable.held.owned
  simp only [decodeEvent, encodeEvent, part, kind, writer, ne_eq, not_true, or_self, if_false,
    readable.held.fit.validate, bind, Except.bind, owned]
  cases command : ev.command with
  | none => rfl
  | some c =>
    obtain ⟨valid, saga, partition⟩ := readable.command c command
    simp [valid, saga, partition]

/-- The watermark and the version of an event are not checked with its content. -/
theorem LogEvent.Readable.stamped {ev : LogEvent} (readable : ev.Readable o) (watermark : Nat) :
    LogEvent.Readable o { ev with in_ := watermark } :=
  { readable with }

theorem eventKindOf_known (cause : TransitionCause) : eventKindOf cause ∈ eventKinds := by
  cases cause <;> decide

theorem Options.partition_exact (o : Options) : o.k % 2 ^ 16 = o.k :=
  Nat.mod_eq_of_lt (Nat.lt_of_lt_of_le o.owned (Nat.le_trans o.layout.valid.2 (by decide)))

section rounds
variable [Digest] {o : Options} {registry : Registry} {p : Partition} {r : Round}

theorem Held.move (held : Held o before) (sane : event.Sane)
    (move : Move before (registry before.record.type before.record.definitionVersion) event turn) :
    Held o turn.next := by
  refine ⟨held.fit.move (registry.valid _ _) sane move, ?_⟩
  rw [show turn.next.record.id = before.record.id from congrArg Identity.id (move_identity move)]
  exact held.owned

theorem Asked.held (asked : Asked o registry now msg prior st kind) (time : 0 < now)
    (held : ∀ before, prior = some before → Held o before) : Held o st ∧ kind ∈ eventKinds := by
  cases asked with
  | start prepared created owned =>
    refine ⟨⟨Fit.start _ created, ?_⟩, by decide⟩
    rw [(newStartRecord_fresh created).id]
    exact owned
  | @result st c turn kind _ decoded _ _ known move =>
    have sane : (Event.result { c with completedAt := now }).Sane :=
      ⟨time, (decodeResultInput_valid decoded).1⟩
    exact ⟨(held st rfl).move sane move, known⟩
  | @resume st request clock turn set move =>
    have sane : (Event.resume request clock now).Sane := set
    exact ⟨(held st rfl).move sane move, by decide⟩
  | @compensate st reason clock turn set short move =>
    have sane : (Event.compensate reason clock now).Sane := ⟨set, short⟩
    exact ⟨(held st rfl).move sane move, by decide⟩

/-- A change keeps the saga fit, and its event can be read. -/
theorem Change.readable (change : Change o registry now prior st kind command) (time : 0 < now)
    (held : ∀ before, prior = some before → Held o before) :
    Held o st ∧ kind ∈ eventKinds ∧ ∀ c, command = some c →
      c.wellFormed = true ∧ c.sagaID = st.record.id ∧ c.partition = o.k := by
  cases change with
  | asked asked =>
    obtain ⟨next, known⟩ := asked.held time held
    exact ⟨next, known, nofun⟩
  | @due st live ripe =>
    have before := held st rfl
    have move : Move st (registry st.record.type st.record.definitionVersion) (.due now) _ := .due live
    have sane : (Event.due now).Sane := time
    refine ⟨before.move sane move, eventKindOf_known _, fun c dispatched => ?_⟩
    obtain ⟨command, minted, rfl⟩ := Option.map_eq_some_iff.mp dispatched
    obtain ⟨valid, saga⟩ := before.fit.command (registry.valid _ _) live time minted
    exact ⟨valid, saga.trans (congrArg Identity.id (move_identity move)).symm, o.partition_exact⟩

structure Round.Sound (o : Options) (p : Partition) (r : Round) : Prop where
  clock : 0 < r.now
  held : ∀ id st, r.get p id = some st → Held o st
  events : ∀ ev ∈ r.events, ev.Readable o

omit [Digest] in
theorem Round.Writes.mem {events : List LogEvent} {eventAt : Table String Nat}
    (writes : r.Writes key ev events eventAt) (member : other ∈ events) :
    other ∈ r.events ∨ other = ev := by
  cases writes with
  | append events_eq =>
    subst events_eq
    simpa using member
  | replace _ _ _ events_eq =>
    subst events_eq
    exact List.mem_or_eq_of_mem_set member

theorem Round.Step.sound (step : r.Step o registry p next) (sound : r.Sound o p) :
    next.Sound o p := by
  cases step with
  | quiet same =>
    refine ⟨same.now ▸ sound.clock, ?_, same.events ▸ sound.events⟩
    rw [same.get p]
    exact sound.held
  | @write st kind command change same =>
    obtain ⟨held, known, valid⟩ := change.readable sound.clock fun before found =>
      sound.held _ before found
    have clock := (Round.write_overlay (o := o) (r := r) st kind command).2.1
    refine ⟨?_, fun id found get => ?_, fun ev member => ?_⟩
    · rw [same.now, clock]
      exact sound.clock
    · rw [same.get p, Round.write_get] at get
      split at get
      · exact Option.some.inj get ▸ held
      · exact sound.held id found get
    · rw [same.events] at member
      rcases (Round.write_writes (o := o) (r := r) st kind command).mem member with earlier | rfl
      · exact sound.events ev earlier
      · exact ⟨rfl, rfl, known, held, valid⟩

/-- Every saga of the partition is held, under its own ID. -/
structure Partition.Sound (o : Options) (p : Partition) : Prop where
  keyed : p.Keyed
  held : ∀ id st, p.sagas.get id = some st → Held o st

theorem Partition.decide_sound (sound : p.Sound o) (registry : Registry) (batch : List InputMsg)
    (time : 0 < now) : (p.decide o registry batch now).1.Sound o p := by
  have start : (p.newRound now).Sound o p := by
    refine ⟨time, fun id st found => ?_, by simp [Partition.newRound]⟩
    exact sound.held id st found
  exact Partition.decide_keeps o registry sound.keyed batch now start fun _ _ step => step.sound

end rounds

end Roost.Saga
