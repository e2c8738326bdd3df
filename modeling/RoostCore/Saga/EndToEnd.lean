import RoostCore.Saga.Participant
import RoostCore.Saga.Traces
import RoostCore.Saga.Wire

/-! A saga with native steps, end to end: the coordinator's life of the saga, its
dispatched commands, the participants that execute them under their receipts, and the
completions on their way back. Commands and completions may be delivered any number of
times, in any order and at any time. -/
namespace Roost.Saga
open Go
open List hiding all partition toString

/-- What stays fixed while the saga runs: its definition, the retention of the
coordinator's guard and of the participants, and the payload limit. -/
structure Setup where
  definition : ValidDefinition
  receiptRetention : Duration
  stepRetention : Duration
  maxPayload : Nat

/-- The coordinator, the receipts of all operations, the executions that committed and
the completions published and delivered, in order. -/
structure World where
  life : Life
  receipts : Table String StepReceipt := ∅
  executed : List Completion := []
  published : List Completion := []
  delivered : List Completion := []

inductive Action where
  | due (now : Time)
  | execute (call : NativeCall)
  | deliver (c : Completion) (now : Time)
  | resume (request : ResumeRequest) (clock now : Time)
  | compensate (reason : String) (clock now : Time)

def World.start (record : Record) : World := { life := Life.start record }

/-- The operations whose business took effect. -/
def effectsOf (executed : List Completion) : List String :=
  (executed.filter (·.success)).map (·.idempotencyKey)

theorem mem_effectsOf :
    key ∈ effectsOf executed ↔ ∃ e ∈ executed, e.success = true ∧ e.idempotencyKey = key := by
  simp [effectsOf, and_assoc]

theorem effectsOf_concat (executed : List Completion) (e : Completion) :
    effectsOf (executed ++ [e]) =
      effectsOf executed ++ if e.success then [e.idempotencyKey] else [] := by
  cases success : e.success <;> simp [effectsOf, success]

def World.effects (w : World) : List String := effectsOf w.executed

def World.operation (w : World) (phase : Phase) (i : Nat) : String := w.life.saga.operation phase i

/-- One delivery of a dispatched command to a participant that never prunes. -/
def World.execute (s : Setup) (w : World) (call : NativeCall) : World :=
  if call.command ∈ w.life.dispatches.map Prod.fst then
    let result := runNativeStep s.stepRetention w.receipts { call with order := [] }
    { w with
      receipts := result.receipts
      executed := w.executed ++ result.executed.toList
      published := w.published ++ (result.outcome.bind StepOutcome.completion).toList }
  else w

section worlds
variable [Digest]

def World.turn (s : Setup) (w : World) (event : Event) : World :=
  { w with life := w.life.step s.receiptRetention s.definition.toDefinition (true, event) }

/-- The part of `round.result` before the verdict. -/
def World.result (s : Setup) (w : World) (c : Completion) (now : Time) : World :=
  match decodeResultInput s.maxPayload (.result { v := wireVersion, completion := c }) with
  | .error _ => w
  | .ok c =>
      if ofSaga c ∧ c.sagaID = w.life.saga.record.id ∧
          ofLifecycle c w.life.saga.record.lifecycle then
        w.turn s (.result { c with completedAt := now })
      else w

def World.step (s : Setup) (w : World) : Action → World
  | .due now => w.turn s (.due now)
  | .execute call => w.execute s call
  | .deliver c now =>
      if c ∈ w.published then { w.result s c now with delivered := w.delivered ++ [c] } else w
  | .resume request clock now => w.turn s (.resume request clock now)
  | .compensate reason clock now => w.turn s (.compensate reason clock now)

omit [Digest] in
/-- What one delivery to a participant without pruning does. -/
inductive NativeRun (command : Command) (receipts : Table String StepReceipt) :
    NativeResult → Prop where
  | idle {outcome} (silent : outcome.bind StepOutcome.completion = none) :
      NativeRun command receipts { receipts, outcome }
  | replay {r} (valid : command.wellFormed = true)
      (found : receipts.get command.idempotencyKey = some r) :
      NativeRun command receipts
        { receipts
          outcome := some (.replayed (command.conclude r.commandID r.success r.error)) }
  | execute {r outcome} (valid : command.wellFormed = true) (named : r.commandID = command.id)
      (clean : r.success = true → r.error = "")
      (fresh : ∀ prior, receipts.get command.idempotencyKey = some prior → prior.success = false)
      (told : ∀ c, outcome.bind StepOutcome.completion = some c →
        c = command.conclude command.id r.success r.error) :
      NativeRun command receipts
        { receipts := receipts.set command.idempotencyKey r
          executed := some (command.conclude command.id r.success r.error)
          outcome }

omit [Digest] in
theorem runNativeStep_run (retention : Duration) (receipts : Table String StepReceipt)
    (call : NativeCall) (unpruned : call.order = []) :
    NativeRun call.command receipts (runNativeStep retention receipts call) := by
  unfold runNativeStep
  dsimp only
  split
  · exact .idle rfl
  rename_i valid
  simp only [Bool.not_eq_true, Bool.not_eq_false] at valid
  split
  · exact .idle rfl
  · rename_i outcome begun
    cases reported : call.reported with
    | false => exact .idle rfl
    | true =>
      rcases nativeBegin_done begun with rfl | ⟨receipt, found, rfl⟩
      · exact .idle rfl
      · exact .replay valid found
  · rename_i begun
    split
    · exact .idle rfl
    have fresh := (nativeBegin_execute begun).2
    simp only [nativeComplete, pruneStepReceipts, unpruned, filter_nil, take_nil,
      foldl_nil]
    refine .execute valid rfl ?_ (fun prior found => (fresh prior found).1) ?_
    · intro succeeded
      exact if_pos succeeded
    · intro c carried
      cases reported : call.reported with
      | false => simp [reported] at carried
      | true =>
        simp only [reported, if_true] at carried
        exact (Option.some.inj carried).symm

/-- What holds in every world: executions come from dispatched commands, receipts and
completions repeat executions, and an operation closed with a result took effect. -/
structure World.Sound (s : Setup) (w : World) : Prop where
  traced : Traced s.maxPayload s.definition.toDefinition w.life
  executed : ∀ e ∈ w.executed, ∃ x ∈ w.life.dispatches, x.1.wellFormed = true ∧
    e = x.1.conclude x.1.id e.success e.error ∧ (e.success = true → e.error = "")
  receipt : ∀ key r, w.receipts.get key = some r → ∃ e ∈ w.executed, e.idempotencyKey = key ∧
    e.commandID = r.commandID ∧ e.success = r.success ∧ e.error = r.error
  stored : ∀ key ∈ w.effects, ∃ r, w.receipts.get key = some r ∧ r.success = true
  once : w.effects.Nodup
  told : ∀ c ∈ w.published, ∃ x ∈ w.life.dispatches, x.1.wellFormed = true ∧
    ∃ e ∈ w.executed, e.idempotencyKey = x.1.idempotencyKey ∧
      c = x.1.conclude e.commandID e.success e.error
  closed : ∀ key, w.life.saga.closedWithResult key → key ∈ w.effects

theorem World.Sound.start (s : Setup)
    (started : newStartRecord request saga lifecycle now = .ok record)
    (fits : request.data.length ≤ s.maxPayload) : (World.start record).Sound s :=
  ⟨.start _ started fits, nofun, nofun, nofun, nodup_nil, nofun, nofun⟩

theorem World.Sound.turn (w : World) (event : Event)
    (results : ∀ c, event = .result c → c.payload.length ≤ s.maxPayload ∧
      ∃ p ∈ w.published, p.idempotencyKey = c.idempotencyKey ∧ p.success = c.success)
    (sound : w.Sound s) : (w.turn s event).Sound s := by
  have move := turn_move s.receiptRetention w.life.saga (some s.definition.toDefinition) event
  have kept {x : Command × UInt32} (old : x ∈ w.life.dispatches) :
      x ∈ (w.turn s event).life.dispatches := mem_append_left _ old
  refine { sound with traced := ?_, executed := ?_, told := ?_, closed := ?_ }
  · refine sound.traced.step _ _ _ _ fun c here => ?_
    obtain ⟨fits, p, published, key, -⟩ := results c here
    obtain ⟨x, old, -, e, -, -, rfl⟩ := sound.told p published
    exact ⟨fits, x, old, key⟩
  · intro e member
    obtain ⟨x, old, rest⟩ := sound.executed e member
    exact ⟨x, kept old, rest⟩
  · intro c member
    obtain ⟨x, old, rest⟩ := sound.told c member
    exact ⟨x, kept old, rest⟩
  · intro key closed
    rcases ((sound.traced.audit.ledger.closing move).2.1 key).mp closed with before | closes
    · exact sound.closed key before
    obtain ⟨c, here, success, rfl⟩ := closing_success move closes
    obtain ⟨-, p, published, same, told⟩ := results c here
    obtain ⟨x, -, -, e, executed, operation, rfl⟩ := sound.told p published
    exact mem_effectsOf.mpr ⟨e, executed, told.trans success, operation.trans same⟩

omit [Digest] in
theorem World.Sound.execute (w : World) (call : NativeCall) (sound : w.Sound s) :
    (w.execute s call).Sound s := by
  unfold World.execute
  split
  · rename_i dispatched
    obtain ⟨x, old, named⟩ := mem_map.mp dispatched
    have ran := runNativeStep_run s.stepRetention w.receipts { call with order := [] } rfl
    dsimp only at ran ⊢
    generalize runNativeStep s.stepRetention w.receipts { call with order := [] } = result at ran
    rw [← named] at ran
    cases ran with
    | idle silent =>
      rw [silent]
      simpa using sound
    | @replay r valid found =>
      obtain ⟨e, executed, key, id, success, error⟩ := sound.receipt _ r found
      simp only [Option.toList_none, append_nil]
      refine { sound with told := fun c member => ?_ }
      rcases mem_append.mp member with before | new
      · exact sound.told c before
      · cases Option.some.inj (Option.mem_toList.mp new)
        exact ⟨x, old, valid, e, executed, key, by rw [id, success, error]⟩
    | @execute r outcome valid id clean fresh told =>
      let e := x.1.conclude x.1.id r.success r.error
      have unstored : x.1.idempotencyKey ∉ w.effects := by
        intro effect
        obtain ⟨prior, found, success⟩ := sound.stored _ effect
        exact absurd ((fresh prior found).symm.trans success) (by decide)
      have effects := effectsOf_concat w.executed e
      have grown {key : String} (effect : key ∈ w.effects) :
          key ∈ effectsOf (w.executed ++ [e]) := by
        rw [effects]
        exact mem_append_left _ effect
      refine ⟨sound.traced, fun c member => ?_, fun key prior found => ?_, fun key effect => ?_, ?_,
        fun c member => ?_, fun key closed => grown (sound.closed key closed)⟩
      · rcases mem_snoc.mp member with before | rfl
        · exact sound.executed c before
        · exact ⟨x, old, valid, rfl, clean⟩
      · rw [Table.get_set] at found
        split at found
        · rename_i same
          cases found
          exact ⟨e, mem_append_right _ mem_cons_self, same.symm, id.symm, rfl, rfl⟩
        · obtain ⟨c, executed, rest⟩ := sound.receipt key prior found
          exact ⟨c, mem_append_left _ executed, rest⟩
      · change key ∈ effectsOf (w.executed ++ [e]) at effect
        rw [Table.get_set]
        by_cases same : key = x.1.idempotencyKey
        · subst same
          have success : r.success = true := by
            by_contra failed
            have failed : e.success = false := Bool.eq_false_iff.mpr failed
            simp only [effects, failed, Bool.false_eq_true, if_false, append_nil] at effect
            exact unstored effect
          exact ⟨r, if_pos rfl, success⟩
        · rw [if_neg same]
          apply sound.stored
          rw [effects] at effect
          rcases mem_append.mp effect with before | new
          · exact before
          split at new
          · exact absurd (mem_singleton.mp new) same
          · contradiction
      · change (effectsOf (w.executed ++ [e])).Nodup
        rw [effects]
        split
        · exact nodup_append_comm.mp (nodup_cons.mpr ⟨unstored, sound.once⟩)
        · rw [append_nil]
          exact sound.once
      · rcases mem_append.mp member with before | new
        · obtain ⟨y, sent, valid, c', executed, rest⟩ := sound.told c before
          exact ⟨y, sent, valid, c', mem_append_left _ executed, rest⟩
        · exact ⟨x, old, valid, e, mem_append_right _ mem_cons_self, rfl,
            told c (Option.mem_toList.mp new)⟩
  · exact sound

theorem World.result_turn (s : Setup) (w : World) (c : Completion) (now : Time) :
    w.result s c now = w ∨ c.payload.length ≤ s.maxPayload ∧
      w.result s c now = w.turn s (.result { c with completedAt := now }) := by
  unfold World.result
  split
  · exact .inl rfl
  rename_i decoded
  obtain ⟨rfl, -, fits⟩ := decodeResultInput_ok decoded
  split
  · exact .inr ⟨fits, rfl⟩
  · exact .inl rfl

theorem World.result_delivered (s : Setup) (w : World) (c : Completion) (now : Time) :
    (w.result s c now).delivered = w.delivered := by
  rcases w.result_turn s c now with same | ⟨-, turn⟩
  · rw [same]
  · rw [turn]
    rfl

theorem World.Sound.result (w : World) (c : Completion) (now : Time) (published : c ∈ w.published)
    (sound : w.Sound s) : (w.result s c now).Sound s := by
  rcases w.result_turn s c now with same | ⟨fits, turn⟩
  · rw [same]
    exact sound
  · rw [turn]
    refine sound.turn w _ fun other here => ?_
    cases Event.result.inj here
    exact ⟨fits, c, published, rfl, rfl⟩

theorem World.Sound.step (s : Setup) (w : World) (action : Action) (sound : w.Sound s) :
    (w.step s action).Sound s := by
  cases action with
  | due now | resume request clock now | compensate reason clock now => exact sound.turn w _ nofun
  | execute call => exact sound.execute w call
  | deliver c now =>
    unfold World.step
    dsimp only
    split
    · rename_i published
      have next := sound.result w c now published
      exact { next with }
    · exact sound

omit [Digest] in
theorem conclude_payload (command : Command) (id : String) (success : Bool) (error : String) :
    (command.conclude id success error).payload.length ≤ command.payload.length := by
  simp only [Completion.payload, Command.conclude, successData]
  split
  · exact Nat.zero_le _
  · exact Nat.le_refl _

omit [Digest] in
/-- A success that repeats the ID of a valid command is itself valid. -/
theorem conclude_wellFormed {command other : Command} (valid : command.wellFormed = true)
    (named : other.wellFormed = true) :
    (command.conclude other.id true "").wellFormed = true := by
  have small := conclude_payload command other.id true ""
  simp only [Command.wellFormed, Bool.and_eq_true, bne_iff_ne, decide_eq_true_eq] at valid named
  simp only [Completion.wellFormed, Bool.and_eq_true, bne_iff_ne, decide_eq_true_eq]
  obtain ⟨⟨⟨⟨⟨⟨⟨⟨⟨⟨⟨⟨⟨⟨-, -⟩, keySize⟩, key⟩, saga⟩, -⟩, -⟩, -⟩, -⟩, -⟩, -⟩, -⟩, payload⟩, -⟩, -⟩ := valid
  obtain ⟨⟨⟨⟨⟨⟨⟨⟨⟨⟨⟨⟨⟨⟨idSize, id⟩, -⟩, -⟩, -⟩, -⟩, -⟩, -⟩, -⟩, -⟩, -⟩, -⟩, -⟩, -⟩, -⟩ := named
  exact ⟨⟨⟨⟨⟨⟨⟨id, idSize⟩, key⟩, keySize⟩, saga⟩, (by decide : "".utf8ByteSize ≤ 4096)⟩,
    Nat.le_trans small payload⟩, rfl⟩

omit [Digest] in
/-- An operation of the saga begins with its ID and lifecycle. -/
theorem operation_starts (st : SagaState) (phase : Phase) (i : Nat) :
    (∃ rest, st.operation phase i = st.record.id ++ ":" ++ rest) ∧
      ∃ rest, st.operation phase i =
        st.record.id ++ ":" ++ st.record.lifecycle ++ ":" ++ rest := by
  refine ⟨⟨st.record.lifecycle ++ ":" ++ toString phase.code ++ ":" ++ toString (i : Int), ?_⟩,
    ⟨toString phase.code ++ ":" ++ toString (i : Int), ?_⟩⟩ <;>
  simp [SagaState.operation, operationKey, String.append_assoc]

/-- The completion of an execution that took effect passes every check before its
verdict. -/
theorem World.Sound.taken {w : World} (sound : w.Sound s) (published : c ∈ w.published)
    (success : c.success = true) (now : Time) :
    w.result s c now = w.turn s (.result { c with completedAt := now }) := by
  obtain ⟨x, old, valid, e, executed, -, rfl⟩ := sound.told c published
  obtain ⟨y, -, named, same, clean⟩ := sound.executed e executed
  have sent := sound.traced.sent x old
  have succeeded : e.success = true := success
  have id : e.commandID = y.1.id := by rw [same]; rfl
  have fits : ¬ s.maxPayload < (x.1.conclude e.commandID e.success e.error).payload.length :=
    Nat.not_lt.mpr (Nat.le_trans (conclude_payload _ _ _ _) sent.payload)
  have wellFormed : (x.1.conclude e.commandID e.success e.error).wellFormed = true := by
    rw [id, succeeded, clean succeeded]
    exact conclude_wellFormed valid named
  have saga : ofSaga (x.1.conclude e.commandID e.success e.error) = true ∧
      ofLifecycle (x.1.conclude e.commandID e.success e.error) w.life.saga.record.lifecycle =
        true := by
    simp only [ofSaga, ofLifecycle, Command.conclude, hasPrefix_iff, sent.operation, sent.saga]
    exact operation_starts w.life.saga _ _
  unfold World.result decodeResultInput
  simp only [wellFormed, fits, ne_eq, not_true, if_false, or_self, saga, true_and, and_true]
  exact if_pos sent.saga

/-- A delivered command has not concluded or is covered by its deadline or the receipt, and
no operator opens an incarnation after the last one. -/
def World.regular (w : World) : Action → Prop
  | .execute call =>
      (∀ e ∈ w.executed, e.commandID ≠ call.command.id) ∨ call.Covered w.receipts
  | .resume _ _ _ | .compensate _ _ _ => w.life.saga.record.incarnation + 1 ≠ 0
  | .due _ | .deliver _ _ => True

instance (w : World) (action : Action) : Decidable (w.regular action) := by
  cases action <;> unfold World.regular <;> infer_instance

def Event.manual : Event → Bool
  | .resume _ _ _ | .compensate _ _ _ => true
  | .due _ | .result _ => false

/-- Only an operator opens an incarnation. -/
theorem Move.incarnation_le (move : Move st definition event turn)
    (bounded : event.manual = true → st.record.incarnation + 1 ≠ 0) :
    st.record.incarnation ≤ turn.next.record.incarnation := by
  have written (after : Record) (t : Transition)
      (opens : t.cause = .resume ∨ t.cause = .manualCompensate → event.manual = true) :
      st.record.incarnation ≤ (st.apply after t).record.incarnation := by
    change _ ≤ ite _ _ _
    split
    · rename_i cause
      have next := mt UInt32.toNat_inj.mp (bounded (opens (cause.imp_right And.left)))
      have := st.record.incarnation.toNat_lt
      rw [UInt32.le_iff_toNat_le, UInt32.toNat_add]
      rw [UInt32.toNat_add] at next
      change ¬ (_ + 1) % 2 ^ 32 = 0 at next
      change _ ≤ (_ + 1) % 2 ^ 32
      omega
    · exact UInt32.le_refl _
  cases move with
  | idle | alarm => exact UInt32.le_refl _
  | due =>
    refine written _ _ fun cause => ?_
    unfold planDue dispatchPlan at cause
    repeat' split at cause
    all_goals simp at cause
  | accept | late => exact written _ _ (by simp)
  | resume | compensate => exact written _ _ fun _ => rfl

/-- Along regular actions a command has one conclusion, and a success that reached the
coordinator closed its forward operation. -/
structure World.Settled (s : Setup) (w : World) : Prop where
  sound : w.Sound s
  issued : Issued w.life
  distinct : (w.executed.map (·.commandID)).Nodup
  accepted : ∀ command digest, w.life.saga.receipts.get command = some digest →
    ∃ e ∈ w.executed, e.commandID = command ∧
      (e.success = true → w.life.saga.closedWithResult e.idempotencyKey)
  delivered : ∀ c ∈ w.delivered, c.success = true →
    ∀ i, c.idempotencyKey = w.operation .forward i → w.life.saga.closed .forward i

theorem World.Settled.turn (w : World) (event : Event)
    (bounded : event.manual = true → w.life.saga.record.incarnation + 1 ≠ 0)
    (results : ∀ c, event = .result c → ∃ p ∈ w.published, p.commandID = c.commandID ∧
      p.idempotencyKey = c.idempotencyKey ∧ p.success = c.success)
    (sound : (w.turn s event).Sound s) (settled : w.Settled s) : (w.turn s event).Settled s := by
  have ledger := settled.sound.traced.audit.ledger
  have move := turn_move s.receiptRetention w.life.saga (some s.definition.toDefinition) event
  refine ⟨sound, settled.issued.step _ _ _ _ (move.incarnation_le bounded), settled.distinct, ?_, ?_⟩
  · intro command digest stored
    rcases receipt_move move stored with ⟨prior, before⟩ | ⟨c, here, id, closes⟩
    · obtain ⟨e, executed, same, closed⟩ := settled.accepted command prior before
      exact ⟨e, executed, same, fun success =>
        ((ledger.closing move).2.1 _).mpr (.inl (closed success))⟩
    · obtain ⟨p, published, sameID, sameKey, told⟩ := results c here
      obtain ⟨x, -, -, e, executed, operation, rfl⟩ := settled.sound.told p published
      refine ⟨e, executed, sameID.trans id, fun success => ?_⟩
      rw [operation]
      exact ((ledger.closing move).2.1 _).mpr
        (.inr ((closes (told.symm.trans success)).trans (congrArg some sameKey.symm)))
  · intro c member success i operation
    apply closed_mono ledger move
    apply settled.delivered c member success i
    rw [operation]
    exact operation_of_identity (move_identity move) _ _

omit [Digest] in
theorem World.Settled.execute (w : World) (call : NativeCall)
    (fresh : (∀ e ∈ w.executed, e.commandID ≠ call.command.id) ∨ call.Covered w.receipts)
    (settled : w.Settled s) : (w.execute s call).Settled s := by
  have sound := settled.sound.execute w call
  unfold World.execute at sound ⊢
  split
  · rename_i dispatched
    rw [if_pos dispatched] at sound
    refine ⟨sound, settled.issued, ?_, fun command digest stored => ?_, settled.delivered⟩
    · have ran := runNativeStep_run s.stepRetention w.receipts { call with order := [] } rfl
      have covered (covered : NativeCall.Covered { call with order := [] } w.receipts) :=
        covered.unexecuted s.stepRetention
      generalize runNativeStep s.stepRetention w.receipts { call with order := [] } = result
        at ran covered
      cases ran with
      | idle | replay => simpa using settled.distinct
      | execute =>
        have absent : call.command.id ∉ w.executed.map (·.commandID) := by
          intro member
          obtain ⟨e, executed, same⟩ := mem_map.mp member
          rcases fresh with other | unexecuted
          · exact other e executed same
          · exact absurd (covered unexecuted) nofun
        simpa [Command.conclude] using List.Nodup.concat absent settled.distinct
    · obtain ⟨e, executed, rest⟩ := settled.accepted command digest stored
      exact ⟨e, mem_append_left _ executed, rest⟩
  · exact settled

/-- A success that is delivered leaves its forward operation closed. -/
theorem World.Settled.closes {w : World} (settled : w.Settled s) (published : c ∈ w.published)
    (success : c.success = true) (now : Time)
    (operation : c.idempotencyKey = w.operation .forward i) :
    (w.turn s (.result { c with completedAt := now })).life.saga.closed .forward i := by
  obtain ⟨x, old, -, e, executed, same, rfl⟩ := settled.sound.told c published
  obtain ⟨y, sent, -, conclusion, -⟩ := settled.sound.executed e executed
  have ledger := settled.sound.traced.audit.ledger
  have move := turn_move s.receiptRetention w.life.saga (some s.definition.toDefinition)
    (.result { x.1.conclude e.commandID e.success e.error with completedAt := now })
  have key : e.idempotencyKey = y.1.idempotencyKey := by rw [conclusion]; rfl
  have id : e.commandID = y.1.id := by rw [conclusion]; rfl
  cases stored : w.life.saga.receipts.get e.commandID with
  | some digest =>
    obtain ⟨other, member, sameID, closed⟩ := settled.accepted _ digest stored
    cases inj_on_of_nodup_map settled.distinct member executed sameID
    apply closed_mono ledger move
    unfold SagaState.closed
    rw [← World.operation, ← operation]
    have closed := closed success
    rw [same] at closed
    exact closed
  | none =>
    have named := (settled.sound.traced.sent y sent).operation
    have index := operation_inj.mp (named.symm.trans (key.symm.trans (same.trans operation)))
    have closed := success_closes s.receiptRetention s.definition settled.sound.traced
      settled.issued (c := { x.1.conclude e.commandID e.success e.error with completedAt := now })
      sent index.1 (same.symm.trans key) success id stored
    rw [index.2] at closed
    exact closed

theorem World.Settled.result (w : World) (c : Completion) (now : Time) (published : c ∈ w.published)
    (settled : w.Settled s) : (w.result s c now).Settled s := by
  have sound := settled.sound.result w c now published
  rcases w.result_turn s c now with same | ⟨-, turn⟩
  · rw [same]
    exact settled
  · rw [turn] at sound ⊢
    refine settled.turn w _ nofun (fun other here => ?_) sound
    cases Event.result.inj here
    exact ⟨c, published, rfl, rfl, rfl⟩

theorem World.Settled.step (s : Setup) (w : World) (action : Action)
    (regular : w.regular action) (settled : w.Settled s) : (w.step s action).Settled s := by
  have sound := settled.sound.step s w action
  cases action with
  | due now => exact settled.turn w _ nofun nofun sound
  | resume request clock now | compensate reason clock now =>
    exact settled.turn w _ (fun _ => regular) nofun sound
  | execute call => exact settled.execute w call regular
  | deliver c now =>
    unfold World.step at sound ⊢
    dsimp only at sound ⊢
    split
    · rename_i published
      rw [if_pos published] at sound
      have next := settled.result w c now published
      refine ⟨sound, next.issued, next.distinct, next.accepted, fun d member success i operation => ?_⟩
      rcases mem_snoc.mp member with old | rfl
      · exact next.delivered d (w.result_delivered s c now ▸ old) success i operation
      have taken := settled.sound.taken published success now
      have move := turn_move s.receiptRetention w.life.saga (some s.definition.toDefinition)
        (.result { d with completedAt := now })
      rw [taken] at operation ⊢
      refine settled.closes published success now (operation.trans ?_)
      exact operation_of_identity (move_identity move) _ _
    · exact settled

/-- The completion of every execution has reached the coordinator. -/
def World.drained (w : World) : Prop :=
  ∀ e ∈ w.executed, ∃ c ∈ w.delivered,
    c.idempotencyKey = e.idempotencyKey ∧ c.success = e.success
  deriving Decidable

/-- End-to-end safety with native steps. In every world each operation takes effect at
most once, and a completed saga has every forward step in effect once and no
compensation. If every delivered command that had concluded was covered by its deadline or
the receipt and no incarnation was opened after the last one, a compensated or failed saga
whose completions were all delivered has the compensation of every forward step that took
effect. -/
theorem end_to_end_safety (s : Setup) {request : StartRequest} {id lifecycle : String} {now : Time}
    {record : Record} (started : newStartRecord request id lifecycle now = .ok record)
    (fits : request.data.length ≤ s.maxPayload) (actions : List Action) :
    let w := run (World.step s) (World.start record) actions
    (∀ key, w.effects.count key ≤ 1) ∧
    (w.life.saga.record.status = .completed →
      (∀ i < s.definition.steps.length, w.effects.count (w.operation .forward i) = 1) ∧
        ∀ i, w.operation .compensate i ∉ w.effects) ∧
    (Along (World.step s) World.regular (World.start record) actions →
      w.life.saga.record.status = .compensated ∨ w.life.saga.record.status = .failed →
      w.drained →
      ∀ i, w.operation .forward i ∈ w.effects → w.operation .compensate i ∈ w.effects) := by
  intro w
  have start := World.Sound.start s started fits
  have sound : w.Sound s := invariant (World.Sound.step s) start actions
  have ledger := sound.traced.audit.ledger
  have standing := ledger.placed.standing
  refine ⟨fun key => nodup_iff_count_le_one.mp sound.once key, fun completed => ⟨?_, ?_⟩, ?_⟩
  · intro i bound
    have all := sound.traced.audit.finished completed
    have closed := ((ledger.effective i).mpr (.inl (by omega))).1
    exact count_eq_one_of_mem sound.once (sound.closed _ closed)
  · intro i effect
    simp only [Standing, completed] at standing
    obtain ⟨e, executed, -, key⟩ := mem_effectsOf.mp effect
    obtain ⟨x, sent, -, conclusion, -⟩ := sound.executed e executed
    have sent := sound.traced.sent x sent
    have named : x.1.idempotencyKey = w.operation .compensate i := by
      rw [← key, conclusion]
      rfl
    have backward := sent.backward (operation_inj.mp (sent.operation.symm.trans named)).1
    exact absurd (standing.1.symm.trans backward) (by decide)
  · intro along stopped drained i effect
    have settled : w.Settled s := invariant_along (World.Settled.step s)
      ⟨start, .start started, nodup_nil, fun _ _ found => by contradiction, fun _ told => by contradiction⟩ along
    obtain ⟨e, executed, success, key⟩ := mem_effectsOf.mp effect
    obtain ⟨c, delivered, sameKey, told⟩ := drained e executed
    have forward := settled.delivered c delivered (told.trans success) i (sameKey.trans key)
    apply sound.closed
    by_contra undone
    have held := (ledger.effective i).mp ⟨forward, undone⟩
    have none : w.life.saga.record.completedSteps = 0 ∧ w.life.saga.record.lateStep = 0 := by
      rcases stopped with status | status <;> simp only [Standing, status] at standing
      · exact standing.2
      · exact standing.2.2
    rcases held with before | last <;> omega

/-- The forward steps a command builds on: those before it, or the one it compensates. -/
def Command.Needs (c : Command) (i : Nat) : Prop :=
  match c.phase with
  | .forward => (i : Int) < c.step
  | .compensate => (i : Int) = c.step

/-- A command is dispatched where the record stands, which is next to what is in effect. -/
theorem dispatch_needs (ledger : Ledger st) (move : Move st definition event turn)
    (dispatched : turn.command = some command) (needs : command.Needs i) : st.closed .forward i := by
  cases move with
  | due live =>
    obtain ⟨_, _, -, -, -, -, minted⟩ := planDue_command dispatched
    cases minted
    refine ((ledger.effective i).mpr ?_).1
    rcases ledger.placed.live live with ⟨⟨phase, step⟩, -⟩ | ⟨phase, step⟩ <;>
      simp only [Command.Needs, InEffect, phase] at needs ⊢ <;> omega
  | _ => contradiction

/-- The coordinator has the success of every step that a dispatched command builds on. -/
def World.Ordered (w : World) : Prop :=
  ∀ x ∈ w.life.dispatches, ∀ i, x.1.Needs i → w.life.saga.closed .forward i

theorem World.Ordered.turn {w : World} (ordered : w.Ordered) (sound : w.Sound s) (event : Event) :
    (w.turn s event).Ordered := by
  have ledger := sound.traced.audit.ledger
  have move := turn_move s.receiptRetention w.life.saga (some s.definition.toDefinition) event
  intro x member i needs
  apply closed_mono ledger move
  rcases mem_append.mp member with old | new
  · exact ordered x old i needs
  · obtain ⟨command, here, rfl⟩ := Option.map_eq_some_iff.mp (Option.mem_toList.mp new)
    exact dispatch_needs ledger move here needs

theorem World.Ordered.step (s : Setup) (w : World) (action : Action) (inv : w.Sound s ∧ w.Ordered) :
    (w.step s action).Sound s ∧ (w.step s action).Ordered := by
  obtain ⟨sound, ordered⟩ := inv
  refine ⟨sound.step s w action, ?_⟩
  cases action with
  | due | resume | compensate => exact ordered.turn sound _
  | execute => exact keeps_if (P := World.Ordered) ordered fun _ => ordered
  | deliver c now =>
    refine keeps_if (P := World.Ordered) ordered fun _ => ?_
    change (w.result s c now).Ordered
    rcases w.result_turn s c now with same | ⟨-, turn⟩
    · rwa [same]
    · rw [turn]
      exact ordered.turn sound _

/-- The steps take effect in order. In every world a forward step is dispatched only after all
steps before it took effect, and a compensation only after its own step did. -/
theorem steps_in_order (s : Setup) {request : StartRequest} {id lifecycle : String} {now : Time}
    {record : Record} (started : newStartRecord request id lifecycle now = .ok record)
    (fits : request.data.length ≤ s.maxPayload) (actions : List Action) :
    let w := run (World.step s) (World.start record) actions
    ∀ x ∈ w.life.dispatches, ∀ i, x.1.Needs i → w.operation .forward i ∈ w.effects := by
  intro w x member i needs
  obtain ⟨sound, ordered⟩ : w.Sound s ∧ w.Ordered :=
    invariant (World.Ordered.step s) ⟨.start s started fits, fun _ sent => by contradiction⟩ actions
  exact sound.closed _ (ordered x member i needs)

end worlds

namespace Sample

def setup : Setup :=
  { definition := ⟨definition, by decide⟩, receiptRetention := 168 * 3600 * second,
    stepRetention := 0, maxPayload := 1024 }

/-- The first attempt the sample saga dispatches at a time in an incarnation. -/
def command (phase : Phase) (incarnation : UInt32) (dispatched : Time) : Command :=
  let key := operationKey "a42" "L" phase 0
  { id := commandID key incarnation 1, idempotencyKey := key, sagaID := "a42",
    sagaType := "order", definitionVersion := 1, businessKey := "42", step := 0,
    stepName := "pay", phase, attempt := 1,
    topic := if phase = .forward then "shop.pay" else "shop.pay.compensate", payload := [],
    deadlineAt := dispatched + 5 * second, createdAt := dispatched, partition := 0 }

/-- The command is executed and its completion delivered, at the given times. -/
def executed (command : Command) (success : Bool) (at_ : Time) : Action :=
  .execute { command, now := at_, business := some (success, "no funds"),
             done := at_, order := [], reported := true }

def delivered (command : Command) (success : Bool) (at_ : Time) : Action :=
  .deliver (command.conclude command.id success (if success then "" else "no funds")) at_

/-- The first attempt is refused, the saga fails and is resumed, the second incarnation
is refused as well, and the first command, delivered once more before its deadline, is
executed again and succeeds. -/
def reexecution : List Action :=
  [.due now, executed (command .forward 0 now) false (now + second),
    delivered (command .forward 0 now) false (now + second),
    .resume { id := "a42", now := now + second, deadlineAt := 0, clearDeadline := false }
      (now + second) (now + second),
    .due (now + second), executed (command .forward 1 (now + second)) false (now + 2 * second),
    delivered (command .forward 1 (now + second)) false (now + 2 * second),
    executed (command .forward 0 now) true (now + 3 * second),
    delivered (command .forward 0 now) true (now + 3 * second)]

def reexecuted : World := run (@World.step Digest.tail setup) (World.start record) reexecution

/-- The only attempt times out before its success arrives. -/
def lateness : List Action :=
  [.due now, executed (command .forward 0 now) true (now + second), .due (now + 5 * second),
    delivered (command .forward 0 now) true (now + 6 * second), .due (now + 6 * second),
    executed (command .compensate 0 (now + 6 * second)) true (now + 7 * second),
    delivered (command .compensate 0 (now + 6 * second)) true (now + 7 * second)]

def late : World := run (@World.step Digest.tail setup) (World.start record) lateness

end Sample

open Sample

/-- All completions are delivered, every deadline has passed and the saga has failed,
but its forward step is in effect and not compensated: the coordinator rejected the
second conclusion of the first command as an identity conflict. -/
theorem forward_effect_uncompensated :
    @newStartRecord Digest.tail request "a42" "L" now = .ok record ∧
    reexecuted.life.saga.record.status = .failed ∧
    (∀ x ∈ reexecuted.life.dispatches, x.1.deadlineAt ≤ now + 10 * second) ∧
    (∀ c ∈ reexecuted.published, c ∈ reexecuted.delivered) ∧
    reexecuted.drained ∧
    reexecuted.operation .forward 0 ∈ reexecuted.effects ∧
    reexecuted.operation .compensate 0 ∉ reexecuted.effects := by
  decide

theorem end_to_end_late_success : late.operation .forward 0 ∈ late.effects ∧
      late.operation .compensate 0 ∈ late.effects := by
  have started : @newStartRecord Digest.tail request "a42" "L" now =
      .ok record := by decide
  have safety := @end_to_end_safety Digest.tail setup _ _ _ _ _ started (by decide)
    lateness
  have forward : late.operation .forward 0 ∈ late.effects := by decide
  exact ⟨forward, safety.2.2 (by decide) (.inl (by decide)) (by decide) 0 forward⟩

theorem steps_in_order_late : ∃ x ∈ late.life.dispatches, x.1.Needs 0 ∧
    late.operation .forward 0 ∈ late.effects := by
  have started : @newStartRecord Digest.tail request "a42" "L" now = .ok record := by decide
  have sent : (command .compensate 0 (now + 6 * second), 0) ∈ late.life.dispatches := by decide
  exact ⟨_, sent, rfl,
    @steps_in_order Digest.tail setup _ _ _ _ _ started (by decide) lateness _ sent 0 rfl⟩

end Roost.Saga
