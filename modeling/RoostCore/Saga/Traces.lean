import RoostCore.Saga.Dispatch

/-! What becomes of the operations a life dispatched. An operation that the record
leaves keeps a tombstone, at most one dispatched forward operation is ever without a
result, and so the first success that arrives for a forward operation closes it,
however late it is. -/
namespace Roost.Saga
open Go List Option

/-- The operation has a tombstone, or one of its attempts is still open. -/
def SagaState.traced (st : SagaState) (key : String) : Prop :=
  st.ops.get key ≠ none ∨ openOperation st.record = key

section moves
variable [Digest] {st : SagaState}

/-- Only an accepted or late success closes an operation with a result. -/
theorem closing_success (move : Move st definition event turn) (closes : turn.closing = some key) :
    ∃ c, event = .result c ∧ c.success = true ∧ c.idempotencyKey = key := by
  cases move with
  | @accept c d defined accepts =>
    by_cases success : c.success = true
    · simp only [success, if_true, some.injEq] at closes
      exact ⟨c, rfl, success, closes⟩
    · simp [success] at closes
  | @late c tomb step abandoned forward =>
    exact ⟨c, rfl, abandoned.success, some.inj closes⟩
  | _ => contradiction

/-- A receipt is written with the verdict on its result. -/
theorem receipt_move (move : Move st definition event turn)
    (stored : turn.next.receipts.get command = some digest) :
    (∃ prior, st.receipts.get command = some prior) ∨ ∃ c, event = .result c ∧ c.commandID = command ∧
      (c.success = true → turn.closing = some c.idempotencyKey) := by
  have written {after : Record} {t : Transition} {c : Completion} (receipt : t.receipt = some c)
      (stored : (st.apply after t).receipts.get command = some digest) :
      (∃ prior, st.receipts.get command = some prior) ∨ c.commandID = command := by
    have set : (st.apply after t).receipts = st.receipts.set c.commandID (receiptDigest c) := by
      simp [SagaState.apply, receipt]
    rw [set, Table.get_set] at stored
    split at stored
    · rename_i same
      exact .inr same.symm
    · exact .inl ⟨_, stored⟩
  cases move with
  | @accept c d defined accepts =>
    refine (written rfl stored).imp_right fun same => ⟨c, rfl, same, fun success => ?_⟩
    simp [success]
  | @late c tomb step abandoned forward =>
    exact (written rfl stored).imp_right fun same => ⟨c, rfl, same, fun _ => rfl⟩
  | _ => exact .inl ⟨_, stored⟩

theorem forward_move (move : Move st definition event turn)
    (forward : turn.next.record.phase = .forward) : st.record.phase = .forward := by
  have progress := move.progress
  generalize turn.next.record = next at progress forward
  cases progress with
  | quiet quiet => exact quiet.forward forward
  | ahead _ _ _ phase => exact phase
  | @back c => exact absurd (forward.symm.trans (compensateSuccess_frame _ _).2.1) (by decide)
  | late => exact (lateStepState_frame _ _ _).2.2.2 forward

/-- In the forward phase no completed step is given back. -/
theorem completed_mono (ledger : Ledger st) (move : Move st definition event turn)
    (forward : turn.next.record.phase = .forward) :
    st.record.completedSteps ≤ turn.next.record.completedSteps := by
  have before := forward_move move forward
  have progress := move.progress
  generalize turn.next.record = next at progress forward ⊢
  cases progress with
  | quiet quiet => exact Int.le_of_eq quiet.completed.symm
  | @ahead c d n _ accepts =>
    have completed : _ = st.record.step + 1 :=
      (forwardSuccess_frame (succeeded st.record c) d c.completedAt).2.1
    rcases ledger.placed.live (accept_live ledger.placed accepts.verdict).2 with ⟨ahead, -⟩ | behind
    · have := ahead.2
      dsimp only
      omega
    · exact absurd (behind.1.symm.trans before) (by decide)
  | back _ _ phase => exact absurd (before.symm.trans phase) (by decide)
  | late => exact Int.le_of_eq (lateStepState_frame _ _ _).2.1.symm

theorem traced_move (ledger : Ledger st) (move : Move st definition event turn)
    (nonempty : key ≠ "") (traced : st.traced key) : turn.next.traced key := by
  have kept {after : Record} {t : Transition} (found : st.ops.get key ≠ none) :
      (st.apply after t).ops.get key ≠ none := by
    rw [apply_get]
    split
    · exact some_ne_none _
    · exact found
  have quiet {after : Record} {t : Transition} (silent : t.success = none) :
      (st.apply after t).traced key := by
    rcases traced with found | opened
    · exact .inl (kept found)
    by_cases stays : openOperation (st.apply after t).record = key
    · exact .inr stays
    refine .inl ?_
    have closes : (planTransition st.record after t).2 = key := by
      simp only [planTransition, silent, getD_none, opened]
      exact if_pos (Ne.symm stays)
    rw [apply_get, if_pos ⟨closes.symm, nonempty⟩]
    exact some_ne_none _
  cases move with
  | idle => exact traced
  | due | resume | compensate => exact quiet rfl
  | @accept c d _ accepts =>
    by_cases success : c.success = true
    · rcases traced with found | opened
      · exact .inl (kept found)
      obtain ⟨operation, -⟩ := accept_live ledger.placed accepts.verdict
      have same : c.idempotencyKey = key := by
        rcases ledger.placed.openOperation with none | ⟨current, -⟩
        · exact absurd (opened.symm.trans none) nonempty
        · exact operation.trans (current.symm.trans opened)
      have closes : (planTransition st.record (applyCompletion st.record d c)
          { cause := .result, receipt := some c }).2 = key := by
        simp [planTransition, Transition.success, success, same]
      refine .inl ?_
      rw [apply_get, if_pos ⟨closes.symm, nonempty⟩]
      exact some_ne_none _
    · exact quiet (by simp [Transition.success, success])
  | @late c tomb step abandoned forward =>
    rcases traced with found | opened
    · exact .inl (kept found)
    -- a late success does not interrupt the operation under way
    refine .inr ?_
    have busy : ¬ (openOperation st.record = "" ∧ st.record.status ≠ .manualRequired) :=
      fun idle => nonempty (opened.symm.trans idle.1)
    rw [← opened]
    unfold lateStepState
    rw [if_neg busy]
    rfl
  | @alarm c tomb incarnation abandoned =>
    refine traced.imp_left fun found => ?_
    change (st.ops.set _ _).get key ≠ none
    rw [Table.get_set]
    split
    · exact some_ne_none _
    · exact found

/-- Every tombstone records how its operation was closed. -/
def Known (st : SagaState) : Prop :=
  ∀ key tomb, st.ops.get key = some tomb → tomb.closure ≠ .unknown

theorem Known.move (known : Known st) (move : Move st definition event turn) : Known turn.next := by
  have applied (after : Record) (t : Transition) : Known (st.apply after t) := by
    intro key tomb found
    rw [apply_get] at found
    split at found
    · cases found
      cases t.success.isSome with
      | true => exact nofun
      | false =>
        cases prior : st.ops.get key with
        | none => exact nofun
        | some before => exact known key before prior
    · exact known key tomb found
  cases move with
  | idle => exact known
  | due | accept | late | resume | compensate => exact applied _ _
  | @alarm c tomb incarnation abandoned =>
    intro key other found
    change (st.ops.set _ _).get key = some other at found
    rw [Table.get_set] at found
    split at found
    · cases found
      exact known _ tomb abandoned.found
    · exact known key other found

/-- Both payloads of a record fit the limit. -/
def Bounded (limit : Nat) (payloads : Bytes × Bytes) : Prop :=
  payloads.1.length ≤ limit ∧ payloads.2.length ≤ limit

omit [Digest] in
theorem Bounded.succeeded (bounded : Bounded limit r.payloads) (fits : c.payload.length ≤ limit) :
    (succeeded r c).data.length ≤ limit := by
  simp only [Saga.succeeded]
  split
  · exact bounded.1
  cases carried : c.data with
  | none => exact bounded.1
  | some bytes => rwa [Completion.payload, carried] at fits

/-- A record carries what it was started with and what results brought. -/
theorem Bounded.move (bounded : Bounded limit st.record.payloads)
    (move : Move st definition event turn)
    (results : ∀ c, event = .result c → c.payload.length ≤ limit) :
    Bounded limit turn.next.record.payloads := by
  have progress := move.progress
  generalize turn.next.record = next at progress
  cases progress with
  | @quiet _ after _ quiet =>
    change Bounded limit after.payloads
    rw [quiet.payloads]
    exact bounded
  | @ahead c d =>
    change Bounded limit (forwardSuccess _ _ _).payloads
    rw [forwardSuccess_payloads]
    exact ⟨bounded.succeeded (results c rfl), bounded.2⟩
  | @back c =>
    change Bounded limit (compensateSuccess _ _).payloads
    rw [compensateSuccess_payloads]
    refine ⟨bounded.succeeded (results c rfl), ?_⟩
    split
    · exact Nat.zero_le _
    · exact bounded.2
  | @late c tomb step =>
    change Bounded limit (lateStepState st.record c step).payloads
    rw [lateStepState_payloads]
    exact ⟨bounded.1, results c rfl⟩

end moves

/-- What holds of a dispatched command as long as its saga lives. -/
structure Sent (limit : Nat) (d : Definition) (st : SagaState) (command : Command) : Prop where
  saga : command.sagaID = st.record.id
  nonneg : 0 ≤ command.step
  inside : command.step < d.steps.length
  operation : command.idempotencyKey = st.operation command.phase command.step.toNat
  backward : command.phase = .compensate → st.record.phase = .compensate
  reached : command.phase = .forward → st.record.phase = .forward →
    command.step ≤ st.record.completedSteps
  traced : st.traced command.idempotencyKey
  payload : command.payload.length ≤ limit

section lives
variable [Digest]

theorem Sent.move (sent : Sent limit d st command) (ledger : Ledger st)
    (move : Move st definition event turn) : Sent limit d turn.next command := by
  have same := move_identity move
  refine ⟨?_, sent.nonneg, sent.inside, ?_, fun phase => ?_, fun phase forward => ?_, ?_,
    sent.payload⟩
  · rw [sent.saga]
    exact (congrArg Identity.id same).symm
  · rw [operation_of_identity same]
    exact sent.operation
  · cases next : turn.next.record.phase with
    | compensate => rfl
    | forward => exact absurd (sent.backward phase) (by rw [forward_move move next]; decide)
  · exact Int.le_trans (sent.reached phase (forward_move move forward))
      (completed_mono ledger move forward)
  · refine traced_move ledger move ?_ sent.traced
    rw [sent.operation]
    exact operation_ne_empty _ _ _

/-- The command a due record dispatches, and where the record stands then: a forward
dispatch happens at the end of the completed prefix. -/
structure Dispatched (limit : Nat) (d : Definition) (next : SagaState) (command : Command) :
    Prop where
  sent : Sent limit d next command
  phase : next.record.phase = command.phase
  ahead : command.phase = .forward →
    command.step = next.record.completedSteps ∧ next.record.lateStep = 0

theorem dispatch_sent (ledger : Ledger st) (budget : Budget st.record)
    (bounded : Bounded limit st.record.payloads) (same : ∀ d', definition = some d' → d' = d)
    (move : Move st definition event turn) (dispatched : turn.command = some command) :
    Dispatched limit d turn.next command := by
  obtain ⟨live, minted, -⟩ := dispatch_minted ledger budget move dispatched
  cases move with
  | @due now _ =>
    obtain ⟨d', step, defined, found, -, plan, minting⟩ := planDue_command dispatched
    cases same d' defined
    cases minting
    have nonneg := ledger.placed.step_nonneg live
    have next : (st.apply (planDue st.record definition now).after
        { cause := (planDue st.record definition now).cause }).record =
          (planTransition st.record (dispatchPlan st.record step now).after
            { cause := .dispatch }).1 := by
      rw [apply_record, plan]
      rfl
    have ahead (forward : st.record.phase = .forward) :
        st.record.step = st.record.completedSteps ∧ st.record.lateStep = 0 := by
      rcases ledger.placed.live live with ⟨ahead, noLate⟩ | behind
      · exact ⟨ahead.2, noLate⟩
      · exact absurd (behind.1.symm.trans forward) (by decide)
    refine ⟨⟨?_, nonneg, ?_, minted.operation, ?_, ?_, .inr ?_, ?_⟩, ?_, ?_⟩
    · rw [next]
      rfl
    · have bound : st.record.step.toNat < d.steps.length := by
        unfold stepFor at found
        split at found
        · contradiction
        · exact (List.getElem?_eq_some_iff.mp found).1
      change st.record.step < d.steps.length
      omega
    · rw [next]
      exact id
    · intro forward _
      rw [next]
      exact Int.le_of_eq (ahead forward).1
    · rw [next]
      rfl
    · split
      · exact bounded.2
      · exact bounded.1
    · rw [next]
      rfl
    · rw [next]
      exact ahead
  | _ => contradiction

/-- At most one dispatched forward operation is without a result, and none once a
late step is recorded. -/
structure Traced (limit : Nat) (d : Definition) (life : Life) : Prop where
  audit : Audit d life
  budget : Budget life.saga.record
  bounded : Bounded limit life.saga.record.payloads
  known : Known life.saga
  sent : ∀ x ∈ life.dispatches, Sent limit d life.saga x.1
  single : ∀ x ∈ life.dispatches, ∀ y ∈ life.dispatches,
    x.1.phase = .forward → y.1.phase = .forward →
    ¬ life.saga.closed .forward x.1.step.toNat → ¬ life.saga.closed .forward y.1.step.toNat →
    x.1.step = y.1.step
  late : 0 < life.saga.record.lateStep → ∀ x ∈ life.dispatches, x.1.phase = .forward →
    life.saga.closed .forward x.1.step.toNat

theorem Traced.start (d : Definition)
    (started : newStartRecord request saga lifecycle now = .ok record)
    (fits : request.data.length ≤ limit) : Traced limit d (Life.start record) := by
  have fresh := newStartRecord_fresh started
  refine ⟨Audit.start d started, .zero fresh.attempt, ?_, nofun, nofun, nofun, nofun⟩
  change Bounded limit record.payloads
  rw [fresh.payloads]
  exact ⟨fits, Nat.zero_le _⟩

theorem closing_closed (ledger : Ledger st) (move : Move st definition event turn)
    (closes : turn.closing = some (st.operation phase i)) : turn.next.closed phase i := by
  unfold SagaState.closed
  rw [operation_of_identity (move_identity move)]
  exact ((ledger.closing move).2.1 _).mpr (.inr closes)

theorem closed_mono (ledger : Ledger st) (move : Move st definition event turn)
    (closed : st.closed phase i) : turn.next.closed phase i := by
  unfold SagaState.closed at closed ⊢
  rw [operation_of_identity (move_identity move)]
  exact ((ledger.closing move).2.1 _).mpr (.inl closed)

omit [Digest] in
/-- A forward step that was reached and has no result is the one after the prefix. -/
theorem Sent.unclosed (sent : Sent limit d st command) (ledger : Ledger st)
    (forward : command.phase = .forward) (phase : st.record.phase = .forward)
    (opened : ¬ st.closed .forward command.step.toNat) :
    command.step = st.record.completedSteps := by
  have nonneg := sent.nonneg
  refine Int.le_antisymm (sent.reached forward phase) (Int.not_lt.mp fun before => opened ?_)
  exact ((ledger.effective _).mpr (.inl (by omega))).1

theorem late_move (ledger : Ledger st) (move : Move st definition event turn)
    (late : 0 < turn.next.record.lateStep) :
    0 < st.record.lateStep ∨ ∃ c, event = .result c ∧ turn.closing = some c.idempotencyKey ∧
      ∃ i, c.idempotencyKey = st.operation .forward i ∧ ¬ st.closed .forward i := by
  cases move with
  | idle | alarm => exact .inl late
  | due => exact .inl ((planDue_quiet _ _ _).late ▸ late)
  | resume _ planned => exact .inl ((planResume_quiet planned).late ▸ late)
  | compensate planned => exact .inl ((planCompensate_quiet planned).late ▸ late)
  | @late c tomb step abandoned forward =>
    obtain ⟨i, -, named, opened, -⟩ := ledger.late_step abandoned forward
    exact .inr ⟨c, rfl, rfl, i, named, opened⟩
  | @accept c d _ accepts =>
    change 0 < (applyCompletion st.record d c).lateStep at late
    left
    by_cases success : c.success = true
    · cases phase : st.record.phase with
      | forward =>
        rw [applyCompletion_forward d success phase, (forwardSuccess_frame _ _ _).2.2.1] at late
        exact late
      | compensate =>
        rw [applyCompletion_compensate d success phase,
          (compensateSuccess_frame _ _).2.2.2] at late
        split at late
        · contradiction
        · exact late
    · exact (applyCompletion_quiet _ _ (Bool.eq_false_iff.mpr success)).late ▸ late

theorem Traced.step (retention : Duration) (definition : ValidDefinition) (life : Life)
    (input : Bool × Event)
    (results : ∀ c, input.2 = .result c → c.payload.length ≤ limit ∧
      ∃ x ∈ life.dispatches, x.1.idempotencyKey = c.idempotencyKey)
    (traced : Traced limit definition.toDefinition life) :
    Traced limit definition.toDefinition (life.step retention definition.toDefinition input) := by
  have move := turn_move retention life.saga
    (if input.1 then some definition.toDefinition else none) input.2
  have same (d : Definition)
      (defined : (if input.1 then some definition.toDefinition else none) = some d) :
      d = definition.toDefinition := by
    split at defined
    · exact (some.inj defined).symm
    · contradiction
  have ledger := traced.audit.ledger
  have nextLedger := (ledger.closing move).1
  have dispatched {x : Command × UInt32} (new : x ∈ ((life.saga.turn retention
      (if input.1 then some definition.toDefinition else none) input.2).command.map
        (fun command => (command, life.saga.record.incarnation))).toList) :
      Dispatched limit definition.toDefinition
        (life.step retention definition.toDefinition input).saga x.1 := by
    obtain ⟨command, here, rfl⟩ := map_eq_some_iff.mp (mem_toList.mp new)
    exact dispatch_sent ledger traced.budget traced.bounded same move here
  have sent (x) (member : x ∈ (life.step retention definition.toDefinition input).dispatches) :
      Sent limit definition.toDefinition
        (life.step retention definition.toDefinition input).saga x.1 := by
    rcases mem_append.mp member with old | new
    · exact (traced.sent x old).move ledger move
    · exact (dispatched new).sent
  refine ⟨traced.audit.step retention _ life input, traced.budget.move ?_ move,
    traced.bounded.move move fun c here => (results c here).1, traced.known.move move, sent, ?_, ?_⟩
  · intro d defined
    exact same d defined ▸ definition.valid
  · intro x hx y hy forward other opened open_
    -- in the forward phase both are the step after the prefix
    have prefixed (phase : (life.step retention definition.toDefinition
        input).saga.record.phase = .forward) :=
      And.intro ((sent x hx).unclosed nextLedger forward phase opened)
        ((sent y hy).unclosed nextLedger other phase open_)
    rcases mem_append.mp hx with oldX | newX
    · rcases mem_append.mp hy with oldY | newY
      · exact traced.single x oldX y oldY forward other
          (fun closed => opened (closed_mono ledger move closed))
          (fun closed => open_ (closed_mono ledger move closed))
      · have both := prefixed ((dispatched newY).phase.trans other)
        exact both.1.trans both.2.symm
    · have both := prefixed ((dispatched newX).phase.trans forward)
      exact both.1.trans both.2.symm
  · intro late x member forward
    rcases mem_append.mp member with old | new
    · by_cases closed : life.saga.closed .forward x.1.step.toNat
      · exact closed_mono ledger move closed
      rcases late_move ledger move late with before | ⟨c, here, closes, i, named, opened⟩
      · exact absurd (traced.late before x old forward) closed
      -- the late success is the one of the only operation without a result
      obtain ⟨y, known, key⟩ := (results c here).2
      have operation := (traced.sent y known).operation.symm.trans (key.trans named)
      obtain ⟨phase, index⟩ := operation_inj.mp operation
      have only := traced.single x old y known forward phase closed (index ▸ opened)
      rw [only, index]
      exact closing_closed ledger move (named ▸ closes)
    · exact absurd ((dispatched new).ahead forward).2 (Int.ne_of_gt late)

theorem accepts_closing (accepts : Accepts st c) (success : c.success = true) :
    (st.turn retention (some d) (.result c)).closing = some c.idempotencyKey := by
  simp only [SagaState.turn, SagaState.result, accepts.verdict, receiptSeen, accepts.fresh,
    ResultOutcome.turn, success, if_true]

theorem abandoned_closing (abandoned : Abandoned st c tomb)
    (forward : lateForwardStep st.record c.idempotencyKey = some step) :
    (st.turn retention definition (.result c)).closing = some c.idempotencyKey := by
  simp only [SagaState.turn, SagaState.result, abandoned.verdict, SagaState.history, stateHistory,
    abandoned.fresh, abandoned.found, judgeHistory, abandoned.success, abandoned.closure, forward,
    not_true, if_false, Bool.false_eq_true, not_false_eq_true, and_self, if_true,
    ResultOutcome.turn]

omit [Digest] in
theorem judge_success (success : c.success = true) (past : incarnation ≤ record.incarnation) :
    judgeCompletion record c incarnation =
      if (openOperation record = c.idempotencyKey ∨ incarnation < record.incarnation) ∧
        positionedAt record c.idempotencyKey then .accept else .history := by
  simp [judgeCompletion, success, UInt32.not_lt.mpr past]

omit [Digest] in
theorem Placed.stands (placed : Placed r) (live : r.status.terminal = false) :
    positionedAt r (currentOperation r) = true := by
  have standing := placed.standing
  unfold Standing at standing
  unfold positionedAt
  cases status : r.status <;> simp only [status] at standing live ⊢
  case waiting => exact beq_iff_eq.mpr standing.1
  case pending => exact beq_self_eq_true _
  case compensating => exact beq_self_eq_true _
  all_goals exact absurd live (by decide)

omit [Digest] in
/-- A live record that dispatched its operation still has it open. -/
theorem Placed.reopened (placed : Placed r) (live : r.status.terminal = false)
    (attempted : 0 < r.attempt) : Saga.openOperation r = currentOperation r := by
  have standing := placed.standing
  unfold Standing at standing
  unfold Saga.openOperation
  cases status : r.status <;> simp only [status] at standing live ⊢
  case waiting => exact standing.1
  case pending => exact if_pos attempted
  case compensating => exact if_pos attempted
  all_goals exact absurd live (by decide)

/-- The first success that arrives for a dispatched forward operation closes it: it is
accepted where the record stands, or recorded as the late step. -/
theorem success_closes (retention : Duration) (definition : ValidDefinition)
    (traced : Traced limit definition.toDefinition life) (issued : Issued life)
    (member : x ∈ life.dispatches) (forward : x.1.phase = .forward)
    (operation : c.idempotencyKey = x.1.idempotencyKey) (success : c.success = true)
    (minted : c.commandID = x.1.id) (fresh : life.saga.receipts.get c.commandID = none) :
    (life.step retention definition.toDefinition (true, .result c)).saga.closed .forward
      x.1.step.toNat := by
  have ledger := traced.audit.ledger
  have sent := traced.sent x member
  have mint := issued.minted x member
  have move := turn_move retention life.saga (some definition.toDefinition) (.result c)
  have key : c.idempotencyKey = life.saga.operation .forward x.1.step.toNat := by
    rw [operation, sent.operation, forward]
  by_cases closed : life.saga.closed .forward x.1.step.toNat
  · exact closed_mono ledger move closed
  refine closing_closed ledger move (key ▸ ?_)
  have incarnation : commandIDIncarnation c.idempotencyKey c.commandID = x.2 := by
    rw [minted, mint.id, operation, commandIDIncarnation_commandID]
  have verdict := judge_success success (mint.past)
  rw [← incarnation] at verdict
  split at verdict
  · exact accepts_closing ⟨verdict, fresh⟩ success
  rename_i refused
  obtain ⟨tomb, found, abandoned⟩ :
      ∃ tomb, life.saga.ops.get c.idempotencyKey = some tomb ∧ tomb.closure = .abandoned := by
    rcases sent.traced with kept | opened
    · obtain ⟨tomb, found⟩ := ne_none_iff_exists'.mp kept
      rw [← operation] at found
      refine ⟨tomb, found, ?_⟩
      cases closure : tomb.closure with
      | abandoned => rfl
      | unknown => exact absurd closure (traced.known _ tomb found)
      | closedWithResult =>
        refine absurd ?_ closed
        rw [SagaState.closed, SagaState.closedWithResult, ← key, found, map_some, closure]
    · refine absurd ⟨.inl (opened.trans operation.symm), ?_⟩ refused
      rcases ledger.placed.openOperation with none | ⟨current, live⟩
      · exact absurd (key.symm.trans (operation.trans (opened.symm.trans none)))
          (operation_ne_empty _ _ _)
      · rw [operation, ← opened, current]
        exact ledger.placed.stands live
  apply abandoned_closing ⟨verdict, fresh, success, found, abandoned⟩
  have inside := sent.inside
  have few := definition.steps_bound
  have outside : ¬ ((x.1.step.toNat : Nat) : Int) < life.saga.record.completedSteps :=
    fun before => closed ((ledger.effective _).mpr (.inl before)).1
  have noLate : life.saga.record.lateStep = 0 := by
    have nonneg := ledger.placed.counted.late_nonneg
    by_contra recorded
    exact closed (traced.late (by omega) x member forward)
  have left : life.saga.record.phase = .compensate ∨ life.saga.record.status = .failed ∨
      life.saga.record.status = .manualRequired := by
    by_contra stays
    simp only [not_or] at stays
    have phase : life.saga.record.phase = .forward := by
      cases phase : life.saga.record.phase with
      | forward => rfl
      | compensate => exact absurd phase stays.1
    have current := sent.unclosed ledger forward phase closed
    have live : life.saga.record.status.terminal = false := by
      have finished := traced.audit.finished
      have standing := ledger.placed.standing
      unfold Standing at standing
      cases status : life.saga.record.status <;> simp only [status] at standing stays
      case completed => have := finished status; omega
      case compensated => exact absurd (phase.symm.trans standing.1) (by decide)
      case failed => exact absurd trivial stays.2.1
      case manualRequired => exact absurd trivial stays.2.2
      all_goals rfl
    -- the record stands at the operation again, so it would have taken the success
    have ahead : Ahead life.saga.record := by
      rcases ledger.placed.live live with ahead | behind
      · exact ahead.1
      · exact absurd (behind.1.symm.trans phase) (by decide)
    have here : c.idempotencyKey = currentOperation life.saga.record := by
      rw [key, ledger.current live, phase, current, ahead.2]
    refine refused ⟨?_, here ▸ ledger.placed.stands live⟩
    rcases Decidable.em (x.2 = life.saga.record.incarnation) with same | older
    · left
      rw [here]
      have spent := mint.spent same
      rw [forward] at spent
      have attempted : x.1.attempt ≤ life.saga.record.attempt := by
        have := ahead.2
        rcases spent phase stays.2.1 with before | now
        · omega
        · exact now.2
      exact ledger.placed.reopened live (UInt32.lt_of_lt_of_le mint.positive attempted)
    · right
      rw [incarnation]
      exact UInt32.lt_of_le_of_ne mint.past older
  unfold lateForwardStep
  rw [key, SagaState.operation, parseOperationKey_operationKey, if_pos (by omega)]
  dsimp only
  have free : ¬ (((x.1.step.toNat : Nat) : Int) < life.saga.record.completedSteps ∨
      (life.saga.record.lateStep ≠ 0 ∧ life.saga.record.lateStep ≠ (x.1.step.toNat : Nat) + 1)) :=
    fun taken => taken.elim outside fun late => late.1 noLate
  rw [if_neg free, if_pos left]

end lives

end Roost.Saga
