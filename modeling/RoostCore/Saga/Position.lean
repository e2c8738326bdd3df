import RoostCore.Saga.Transition

/-! Where a record stands between two transitions. A live record stands at one
operation: the forward step after the completed prefix, or the compensation of the
late step or of the last completed one. -/
namespace Roost.Saga
open Go

/-- The fields of a record that no transition writes. -/
structure Identity where
  id : String
  lifecycle : String
  type : String
  definitionVersion : UInt32
  businessKey : String
  startDigest : String
  createdAt : Time
  startAttempt : String

def Record.identity (r : Record) : Identity :=
  { id := r.id, lifecycle := r.lifecycle, type := r.type,
    definitionVersion := r.definitionVersion, businessKey := r.businessKey,
    startDigest := r.startDigest, createdAt := r.createdAt, startAttempt := r.startAttempt }

/-- The data chain and the data of the late step. -/
def Record.payloads (r : Record) : Bytes × Bytes := (r.data, r.lateData)

/-- A transition that accepts no success: counters and payloads stay, the phase does
not turn back to forward, and the saga does not complete. -/
structure Quiet (r after : Record) : Prop where
  identity : after.identity = r.identity
  completed : after.completedSteps = r.completedSteps
  late : after.lateStep = r.lateStep
  payloads : after.payloads = r.payloads
  forward : after.phase = .forward → r.phase = .forward
  unfinished : after.status = .completed → r.status = .completed

theorem Quiet.after (second : Quiet b c) (first : Quiet a b) : Quiet a c :=
  ⟨second.identity.trans first.identity, second.completed.trans first.completed,
    second.late.trans first.late, second.payloads.trans first.payloads,
    fun h => first.forward (second.forward h), fun h => first.unfinished (second.unfinished h)⟩

theorem nextCompensation_quiet (r : Record) (now : Time) : Quiet r (nextCompensation r now) := by
  unfold nextCompensation
  dsimp only
  split_ifs <;> exact ⟨rfl, rfl, rfl, rfl, nofun, nofun⟩

theorem nextCompensation_phase (r : Record) (now : Time) :
    (nextCompensation r now).phase = .compensate := by
  unfold nextCompensation
  dsimp only
  split_ifs <;> rfl

theorem nextCompensation_unfinished (r : Record) (now : Time) :
    (nextCompensation r now).status ≠ .completed := by
  unfold nextCompensation
  dsimp only
  split_ifs <;> exact nofun

theorem compensationState_quiet (r : Record) (reason : String) (now : Time) :
    Quiet r (compensationState r reason now) := by
  unfold compensationState
  dsimp only
  split_ifs
  · exact ⟨rfl, rfl, rfl, rfl, id, nofun⟩
  · exact (nextCompensation_quiet _ now).after ⟨rfl, rfl, rfl, rfl, id, id⟩

theorem retryState_quiet (r : Record) (definition : Definition) (reason : String) (now : Time) :
    Quiet r (retryState r definition reason now) := by
  unfold retryState
  dsimp only
  split
  · exact ⟨rfl, rfl, rfl, rfl, id, nofun⟩
  split
  · refine ⟨rfl, rfl, rfl, rfl, id, fun finished => ?_⟩
    split at finished <;> contradiction
  · split
    · exact ⟨rfl, rfl, rfl, rfl, id, nofun⟩
    · exact (compensationState_quiet _ reason now).after ⟨rfl, rfl, rfl, rfl, id, id⟩

theorem planDue_quiet (r : Record) (definition : Option Definition) (now : Time) :
    Quiet r (planDue r definition now).after := by
  unfold planDue
  split
  · exact ⟨rfl, rfl, rfl, rfl, id, nofun⟩
  split
  · exact (compensationState_quiet _ _ now).after ⟨rfl, rfl, rfl, rfl, id, id⟩
  split
  · exact (retryState_quiet _ _ _ now).after ⟨rfl, rfl, rfl, rfl, id, id⟩
  · split <;> exact ⟨rfl, rfl, rfl, rfl, id, nofun⟩

/-- The common start of the exits of `planResume`. -/
def resumed (r : Record) (request : ResumeRequest) (deadline : Time) : Record :=
  { r with
    version := r.version + 1, updatedAt := request.now, attempt := 0, lastError := "",
    commandID := "", operationKey := "", nextRunAt := request.now,
    deadlineAt := if request.clearDeadline then 0
      else if Time.isZero deadline then r.deadlineAt else deadline }

theorem planResume_ok (planned : planResume r defined request deadline = .ok after) :
    (r.status = .failed ∨ r.status = .manualRequired) ∧
      (after = nextCompensation (resumed r request deadline) request.now ∨
        ¬ (r.phase = .compensate ∨ 0 < r.completedSteps ∨ 0 < r.lateStep) ∧
          after = { resumed r request deadline with phase := .forward, status := .pending }) := by
  unfold planResume at planned
  split at planned
  · contradiction
  rename_i stopped
  have stopped : r.status = .failed ∨ r.status = .manualRequired := by
    by_contra moving
    exact stopped (not_or.mp moving)
  split at planned
  · contradiction
  dsimp only at planned
  split at planned
  · contradiction
  split at planned
  · exact ⟨stopped, .inl (Except.ok.inj planned).symm⟩
  · rename_i nothing
    exact ⟨stopped, .inr ⟨nothing, (Except.ok.inj planned).symm⟩⟩

theorem planCompensate_write (planned : planCompensate r reason now = .write after) :
    r.status ≠ .completed ∧ ¬ (r.completedSteps = 0 ∧ r.lateStep = 0) ∧
      after = beginCompensation r reason now := by
  unfold planCompensate at planned
  split at planned <;> try contradiction
  rename_i unfinished
  split at planned
  · contradiction
  rename_i something
  cases planned
  exact ⟨unfinished, something, rfl⟩

theorem planResume_quiet (planned : planResume r defined request deadline = .ok after) :
    Quiet r after := by
  obtain ⟨-, rfl | ⟨nothing, rfl⟩⟩ := planResume_ok planned
  · exact (nextCompensation_quiet _ _).after ⟨rfl, rfl, rfl, rfl, id, id⟩
  refine ⟨rfl, rfl, rfl, rfl, fun _ => ?_, nofun⟩
  cases phase : r.phase with
  | forward => rfl
  | compensate => exact absurd (.inl phase) nothing

theorem planCompensate_quiet (planned : planCompensate r reason now = .write after) :
    Quiet r after := by
  obtain ⟨-, -, rfl⟩ := planCompensate_write planned
  exact (compensationState_quiet _ reason now).after ⟨rfl, rfl, rfl, rfl, id, id⟩

theorem applyCompletion_quiet (r : Record) (definition : Definition) (failed : c.success = false) :
    Quiet r (applyCompletion r definition c) := by
  unfold applyCompletion
  simp only [failed, Bool.false_eq_true, if_false]
  split
  · split
    · exact ⟨rfl, rfl, rfl, rfl, id, nofun⟩
    · exact (compensationState_quiet _ _ _).after ⟨rfl, rfl, rfl, rfl, id, id⟩
  · exact (retryState_quiet _ _ _ _).after ⟨rfl, rfl, rfl, rfl, id, id⟩

theorem forwardSuccess_frame (r : Record) (definition : Definition) (now : Time) :
    (forwardSuccess r definition now).identity = r.identity ∧
      (forwardSuccess r definition now).completedSteps = r.step + 1 ∧
      (forwardSuccess r definition now).lateStep = r.lateStep ∧
      ((forwardSuccess r definition now).phase = .forward → r.phase = .forward) := by
  unfold forwardSuccess
  dsimp only
  split
  · have quiet := compensationState_quiet
      { r with completedSteps := r.step + 1, step := r.step + 1 }
      "saga deadline exceeded after step completion" now
    exact ⟨quiet.identity, quiet.completed, quiet.late, quiet.forward⟩
  · split <;> exact ⟨rfl, rfl, rfl, id⟩

theorem forwardSuccess_step (r : Record) (definition : Definition) (now : Time) :
    (forwardSuccess r definition now).step = r.step + 1 ∨
      (forwardSuccess r definition now).phase = .compensate := by
  unfold forwardSuccess compensationState
  dsimp only
  split
  · split
    · exact .inl rfl
    · exact .inr (nextCompensation_phase _ now)
  · split <;> exact .inl rfl

/-- The compensated step leaves the counter that held it. -/
theorem compensateSuccess_frame (r : Record) (now : Time) :
    (compensateSuccess r now).identity = r.identity ∧
      (compensateSuccess r now).phase = .compensate ∧
      (compensateSuccess r now).completedSteps =
        (if compensatingLateStep r then r.completedSteps else r.completedSteps - 1) ∧
      (compensateSuccess r now).lateStep = (if compensatingLateStep r then 0 else r.lateStep) := by
  unfold compensateSuccess
  have quiet (r : Record) := nextCompensation_quiet r now
  split
  all_goals
    exact ⟨(quiet _).identity, nextCompensation_phase _ now, (quiet _).completed, (quiet _).late⟩

variable (definition : Definition)

theorem applyCompletion_forward (success : c.success = true)
    (phase : r.phase = .forward) :
    applyCompletion r definition c = forwardSuccess (succeeded r c) definition c.completedAt := by
  simp [applyCompletion, success, phase]

theorem applyCompletion_compensate (success : c.success = true)
    (phase : r.phase = .compensate) :
    applyCompletion r definition c = compensateSuccess (succeeded r c) c.completedAt := by
  simp [applyCompletion, success, phase]

theorem lateStepState_frame (r : Record) (c : Completion) (step : Int) :
    (lateStepState r c step).identity = r.identity ∧
      (lateStepState r c step).completedSteps = r.completedSteps ∧
      (lateStepState r c step).lateStep = step + 1 ∧
      ((lateStepState r c step).phase = .forward → r.phase = .forward) := by
  unfold lateStepState
  split
  · have quiet := nextCompensation_quiet { r with
        version := r.version + 1, updatedAt := c.completedAt, lateStep := step + 1,
        lateData := c.payload,
        lastError := "step " ++ toString step ++
          " took effect after the coordinator abandoned it" } c.completedAt
    exact ⟨quiet.identity, quiet.completed, quiet.late, quiet.forward⟩
  · exact ⟨rfl, rfl, rfl, id⟩

theorem forwardSuccess_payloads (r : Record) (definition : Definition) (now : Time) :
    (forwardSuccess r definition now).payloads = r.payloads := by
  unfold forwardSuccess
  dsimp only
  split
  · exact (compensationState_quiet _ _ now).payloads
  · split <;> rfl

theorem compensateSuccess_payloads (r : Record) (now : Time) : (compensateSuccess r now).payloads =
      (r.data, if compensatingLateStep r then [] else r.lateData) := by
  unfold compensateSuccess
  split <;> exact (nextCompensation_quiet _ now).payloads

theorem lateStepState_payloads (r : Record) (c : Completion) (step : Int) :
    (lateStepState r c step).payloads = (r.data, c.payload) := by
  unfold lateStepState
  split
  · exact (nextCompensation_quiet _ _).payloads
  · rfl

/-- At the forward step after the completed prefix. -/
def Ahead (r : Record) : Prop := r.phase = .forward ∧ r.step = r.completedSteps

/-- At the compensation of the late step or of the last completed one. -/
def Behind (r : Record) : Prop :=
  r.phase = .compensate ∧
    ((0 < r.lateStep ∧ r.step = r.lateStep - 1) ∨
      (0 < r.completedSteps ∧ r.step = r.completedSteps - 1))

/-- The late step lies outside the completed prefix. -/
structure Counted (completed late : Int) : Prop where
  completed_nonneg : 0 ≤ completed
  late_nonneg : 0 ≤ late
  late_outside : 0 < late → completed < late

def Standing (r : Record) : Prop :=
  match r.status with
  | .pending => Ahead r ∧ r.lateStep = 0
  | .waiting => r.operationKey = currentOperation r ∧ ((Ahead r ∧ r.lateStep = 0) ∨ Behind r)
  | .compensating => Behind r
  | .completed => r.phase = .forward ∧ r.lateStep = 0
  | .compensated => r.phase = .compensate ∧ r.completedSteps = 0 ∧ r.lateStep = 0
  | .failed => r.phase = .forward ∧ r.step = 0 ∧ r.completedSteps = 0 ∧ r.lateStep = 0
  | .manualRequired => Ahead r ∨ Behind r

structure Placed (r : Record) : Prop where
  counted : Counted r.completedSteps r.lateStep
  standing : Standing r

theorem nextCompensation_placed (now : Time) (counted : Counted r.completedSteps r.lateStep) :
    Placed (nextCompensation r now) := by
  unfold nextCompensation
  dsimp only
  split
  · rename_i pending
    exact ⟨counted, rfl, .inl ⟨pending, rfl⟩⟩
  split
  · rename_i prefixed
    exact ⟨counted, rfl, .inr ⟨prefixed, rfl⟩⟩
  · have := counted.completed_nonneg
    have := counted.late_nonneg
    exact ⟨counted, rfl, by dsimp only; omega, by dsimp only; omega⟩

theorem compensationState_placed (reason : String) (now : Time) (counted : Counted r.completedSteps r.lateStep)
    (empty : r.completedSteps = 0 → r.lateStep = 0 → r.phase = .forward ∧ r.step = 0) :
    Placed (compensationState r reason now) := by
  unfold compensationState
  dsimp only
  split
  · rename_i none
    obtain ⟨forward, first⟩ := empty none.1 none.2
    exact ⟨counted, forward, first, none.1, none.2⟩
  · exact nextCompensation_placed now counted

/-- What a live record and its target share when the attempt at hand is given up. -/
theorem retryState_placed (reason : String) (now : Time)
    (counted : Counted r.completedSteps r.lateStep) (live : (Ahead r ∧ r.lateStep = 0) ∨ Behind r) :
    Placed (retryState r definition reason now) := by
  unfold retryState
  dsimp only
  split
  · exact ⟨counted, live.imp And.left id⟩
  split
  · refine ⟨counted, ?_⟩
    rcases live with ahead | behind
    · simp only [Standing, ahead.1.1, if_true]
      exact ⟨⟨rfl, ahead.1.2⟩, ahead.2⟩
    · have phase : ¬ r.phase = .forward := by rw [behind.1]; decide
      simp only [Standing, phase, if_false]
      exact behind
  · split
    · exact ⟨counted, live.imp And.left id⟩
    rename_i forward
    rcases live with ahead | behind
    · apply compensationState_placed
      · exact counted
      · intro none _
        exact ⟨ahead.1.1, ahead.1.2.trans none⟩
    · exact absurd behind.1 forward

theorem Placed.live (placed : Placed r) (live : r.status.terminal = false) :
    (Ahead r ∧ r.lateStep = 0) ∨ Behind r := by
  have standing := placed.standing
  unfold Standing at standing
  cases status : r.status <;> simp only [status] at standing live
  · exact .inl standing
  · exact standing.2
  · exact .inr standing
  all_goals exact absurd live (by decide)

theorem live_unfinished {status : Status} (live : status.terminal = false) : status ≠ .completed := by
  rintro rfl
  contradiction

theorem planDue_placed (definition : Option Definition) (now : Time) (placed : Placed r)
    (live : r.status.terminal = false) : Placed (planDue r definition now).after := by
  have counted := placed.counted
  have standing := placed.live live
  unfold planDue
  split
  · exact ⟨counted, standing.imp And.left id⟩
  split
  · rename_i late
    rcases standing with ahead | behind
    · apply compensationState_placed
      · exact counted
      · intro none _
        exact ⟨ahead.1.1, ahead.1.2.trans none⟩
    · exact absurd (behind.1.symm.trans late.2.2) (by decide)
  · split
    · exact retryState_placed _ _ now counted standing
    split
    · exact ⟨counted, standing.imp And.left id⟩
    · exact ⟨counted, rfl, standing⟩

theorem planResume_placed (placed : Placed r)
    (planned : planResume r defined request deadline = .ok after) : Placed after := by
  have counted := placed.counted
  obtain ⟨stopped, rfl | ⟨nothing, rfl⟩⟩ := planResume_ok planned
  · exact nextCompensation_placed _ counted
  simp only [not_or, Int.not_lt] at nothing
  obtain ⟨forward, completed, late⟩ := nothing
  have none : r.completedSteps = 0 := Int.le_antisymm completed counted.1
  refine ⟨counted, ⟨rfl, ?_⟩, Int.le_antisymm late counted.2⟩
  -- only a failed record or one stopped ahead of its prefix is left
  have standing := placed.standing
  unfold Standing at standing
  rcases stopped with status | status <;> simp only [status] at standing
  · exact standing.2.1.trans none.symm
  rcases standing with ahead | behind
  · exact ahead.2
  · exact absurd behind.1 forward

theorem planCompensate_placed (placed : Placed r)
    (planned : planCompensate r reason now = .write after) : Placed after := by
  obtain ⟨-, something, rfl⟩ := planCompensate_write planned
  exact compensationState_placed _ _ placed.counted fun none late => absurd ⟨none, late⟩ something

theorem forwardSuccess_placed (now : Time) (counted : Counted r.completedSteps r.lateStep)
    (ahead : Ahead r) (noLate : r.lateStep = 0) : Placed (forwardSuccess r definition now) := by
  have advanced : 0 < r.step + 1 := by rw [ahead.2]; have := counted.1; omega
  have next : Counted (r.step + 1) r.lateStep :=
    ⟨Int.le_of_lt advanced, counted.2, fun late => absurd late (by omega)⟩
  unfold forwardSuccess
  dsimp only
  split
  · apply compensationState_placed _ _ next
    intro none _
    exact absurd none (Int.ne_of_gt advanced)
  · split
    · exact ⟨next, ahead.1, noLate⟩
    · exact ⟨next, ⟨ahead.1, rfl⟩, noLate⟩

theorem compensateSuccess_placed (now : Time) (counted : Counted r.completedSteps r.lateStep) (behind : Behind r) :
    Placed (compensateSuccess r now) := by
  unfold compensateSuccess
  split
  · apply nextCompensation_placed
    exact ⟨counted.1, Int.le_refl 0, fun late => absurd late (Int.lt_irrefl 0)⟩
  rename_i notLate
  apply nextCompensation_placed
  have completed : 0 < r.completedSteps := by
    rcases behind.2 with late | prefixed
    · simp [compensatingLateStep, behind.1, late] at notLate
    · exact prefixed.1
  refine ⟨Int.sub_nonneg_of_le completed, counted.2, fun late => ?_⟩
  exact Int.lt_of_le_of_lt (Int.sub_le_self _ (by decide)) (counted.3 late)

theorem applyCompletion_placed (c : Completion) (placed : Placed r)
    (live : r.status.terminal = false) : Placed (applyCompletion r definition c) := by
  have counted := placed.counted
  have standing := placed.live live
  unfold applyCompletion
  split
  · split
    · rename_i forward
      rcases standing with ahead | behind
      · exact forwardSuccess_placed _ _ counted ahead.1 ahead.2
      · exact absurd (behind.1.symm.trans forward) (by decide)
    · rename_i backward
      rcases standing with ahead | behind
      · exact absurd (ahead.1.1.symm.trans backward) (by decide)
      · exact compensateSuccess_placed _ counted behind
  · split
    · split
      · exact ⟨counted, standing.imp And.left id⟩
      rename_i forward
      rcases standing with ahead | behind
      · apply compensationState_placed
        · exact counted
        · intro none _
          exact ⟨forward, ahead.1.2.trans none⟩
      · exact absurd (behind.1.symm.trans forward) (by decide)
    · exact retryState_placed _ _ _ counted standing

theorem lateStepState_placed (c : Completion) (placed : Placed r)
    (outside : r.completedSteps ≤ step) (free : r.lateStep = 0 ∨ r.lateStep = step + 1)
    (left : r.phase = .compensate ∨ r.status = .failed ∨ r.status = .manualRequired) :
    Placed (lateStepState r c step) := by
  have counted := placed.counted
  have nonneg := counted.completed_nonneg
  have next : Counted r.completedSteps (step + 1) := ⟨nonneg, by omega, fun _ => by omega⟩
  unfold lateStepState
  split
  · exact nextCompensation_placed _ next
  rename_i busy
  refine ⟨next, ?_⟩
  -- the compensation under way stays the record's operation
  have behind : Behind r → Behind { r with lateStep := step + 1 } := by
    rintro ⟨phase, ⟨late, same⟩ | prefixed⟩
    · have known : r.lateStep = step + 1 := by omega
      exact ⟨phase, .inl ⟨known ▸ late, known ▸ same⟩⟩
    · exact ⟨phase, .inr prefixed⟩
  have standing := placed.standing
  unfold Standing at standing ⊢
  cases status : r.status <;> simp only [status] at standing left ⊢
  case waiting =>
    obtain ⟨operation, ahead | backward⟩ := standing
    · simp [ahead.1.1] at left
    · exact ⟨operation, .inr (behind backward)⟩
  case compensating => exact behind standing
  case manualRequired => exact standing.imp id behind
  case pending => simp [standing.1.1] at left
  case completed => simp [standing.1] at left
  all_goals exact absurd (by simp [openOperation, status]) busy

/-- The first version of a saga, ahead of an empty prefix. -/
structure Fresh (request : StartRequest) (saga : String) (record : Record) : Prop where
  wellFormed : record.wellFormed = true
  id : record.id = saga
  status : record.status = .pending
  phase : record.phase = .forward
  step : record.step = 0
  completed : record.completedSteps = 0
  late : record.lateStep = 0
  attempt : record.attempt = 0
  payloads : record.payloads = (request.data, [])

theorem newStartRecord_fresh [Digest]
    (started : newStartRecord request saga lifecycle now = .ok record) :
    Fresh request saga record := by
  unfold newStartRecord startIntentDigest at started
  simp only [bind, Except.bind, Record.validate, pure, Except.pure] at started
  split at started
  · contradiction
  split at started
  · contradiction
  rename_i checked
  cases started
  refine ⟨?_, rfl, rfl, rfl, rfl, rfl, rfl, rfl, rfl⟩
  split at checked
  · assumption
  · contradiction

theorem newStartRecord_placed [Digest]
    (started : newStartRecord request saga lifecycle now = .ok record) : Placed record := by
  obtain ⟨-, -, status, phase, step, completed, late, -, -⟩ := newStartRecord_fresh started
  refine ⟨⟨by omega, by omega, by omega⟩, ?_⟩
  simp only [Standing, status]
  exact ⟨⟨phase, step.trans completed.symm⟩, late⟩

theorem forwardSuccess_completed (live : r.status.terminal = false)
    (completed : (forwardSuccess r definition now).status = .completed) :
    (definition.steps.length : Int) ≤ (forwardSuccess r definition now).completedSteps := by
  unfold forwardSuccess at completed ⊢
  dsimp only at completed ⊢
  split at completed
  · have before := (compensationState_quiet _ _ now).unfinished completed
    rw [before] at live
    exact absurd live (by decide)
  · rename_i inTime
    rw [if_neg inTime]
    split at completed
    · rename_i last
      rw [if_pos last]
      exact last
    · exact absurd completed nofun

end Roost.Saga
