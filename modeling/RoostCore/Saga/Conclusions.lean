import RoostCore.Run
import RoostCore.Saga.Participant

/-! The conclusions of a participant. A command that is executed at most once has one
conclusion; a receipt that is overwritten before its command's deadline lets that
command be executed again, with any other conclusion. -/
namespace Roost.Saga
open Go List Option Completion

/-- What the coordinator compares: absent and empty data are the same on the wire. -/
structure Conclusion where
  success : Bool
  retryable : Bool
  error : String
  data : Bytes
  deriving DecidableEq, Repr

def Completion.conclusion (c : Completion) : Conclusion :=
  { success := c.success, retryable := c.retryable, error := c.error, data := c.payload }

def Completion.entry (c : Completion) : String × Conclusion := (c.commandID, c.conclusion)

/-- No key has two values. -/
def Agreed {κ ν : Type} (pairs : List (κ × ν)) : Prop :=
  ∀ a ∈ pairs, ∀ b ∈ pairs, a.1 = b.1 → a.2 = b.2

instance {κ ν : Type} [DecidableEq κ] [DecidableEq ν] (pairs : List (κ × ν)) :
    Decidable (Agreed pairs) :=
  inferInstanceAs (Decidable (∀ a ∈ pairs, ∀ b ∈ pairs, a.1 = b.1 → a.2 = b.2))

theorem Agreed.concat (agreed : Agreed pairs) (fresh : ∀ a ∈ pairs, a.1 ≠ key) :
    Agreed (pairs ++ [(key, value)]) := by
  intro a first b second same
  rcases mem_snoc.mp first with old | rfl
  · rcases mem_snoc.mp second with old' | rfl
    · exact agreed a old b old' same
    · exact absurd same (fresh a old)
  · rcases mem_snoc.mp second with old' | rfl
    · exact absurd same.symm (fresh b old')
    · rfl

theorem Agreed.subset (agreed : Agreed pairs) (included : ∀ a ∈ others, a ∈ pairs) :
    Agreed others :=
  fun a first b second => agreed a (included a first) b (included b second)

/-- A delivery that executes no command twice, and reports what it executed or an earlier conclusion. -/
theorem reported_sound {executed told : List (String × Conclusion)} {done : Option Completion}
    {report : Option (String × Conclusion)} (sound : ∀ e ∈ told, e ∈ executed) (agreed : Agreed executed)
    (settled : done = none ∨ ∀ e ∈ executed, e.1 ≠ key) (named : ∀ c, done = some c → c.commandID = key)
    (reported : ∀ e, report = some e → (∃ c, done = some c ∧ c.entry = e) ∨ e ∈ executed) :
    (∀ e ∈ told ++ report.toList, e ∈ executed ++ (done.map entry).toList) ∧
      Agreed (executed ++ (done.map entry).toList) := by
  constructor
  · intro e member
    rcases mem_append.mp member with old | new
    · exact mem_append_left _ (sound e old)
    rcases reported e (mem_toList.mp new) with ⟨c, rfl, rfl⟩ | old
    · simp
    · exact mem_append_left _ old
  · cases done with
    | none => simpa using agreed
    | some c => exact agreed.concat (named c rfl ▸ settled.resolve_left nofun)

def MongoReceipt.entry (d : MongoReceipt) : String × Conclusion :=
  (d.commandID, { success := d.success, retryable := d.retryable, error := d.error, data := d.data })

theorem MongoReceipt.completion_entry (d : MongoReceipt) (command : Command) :
    (d.completion command).entry = d.entry := by
  have data : (if d.data = [] then none else some d.data).getD [] = d.data := by
    split
    · rename_i empty
      exact empty.symm
    · rfl
  simp [Completion.entry, Completion.conclusion, Completion.payload, completion, entry, data]

/-- What one call does: it executes the command and stores its conclusion, or it
changes nothing; it reports the conclusion it executed or the stored one. -/
structure Concludes (command : Command) (doc : Option MongoReceipt) (result : MongoResult) :
    Prop where
  kept : result.executed = none → result.doc = doc
  stored : ∀ c, result.executed = some c →
    c.commandID = command.id ∧ ∃ d, result.doc = some d ∧ d.entry = c.entry
  told : ∀ o c, result.ended = .outcome o → o.completion = some c →
    result.executed = some c ∨ ∃ d, doc = some d ∧ d.entry = c.entry
  rerun : result.ended = .rerun → result.executed = none

theorem finish_outcome {fate : Fate} (ended : fate.finish outcome = .outcome o) :
    fate = .commits ∧ outcome = o := by
  cases fate <;> simp_all [Fate.finish]

theorem Concludes.silent (none : ∀ o, ended = .outcome o → o.completion = none) :
    Concludes command doc { doc, ended } where
  kept _ := rfl
  stored _ executed := by contradiction
  told o c same carried := by
    have silent := none o same
    rw [carried] at silent
    contradiction
  rerun _ := rfl

theorem executeOnce_concludes (command : Command) (doc : Option MongoReceipt) (run : MongoRun) :
    Concludes command doc (executeOnce doc command run) := by
  unfold executeOnce
  split
  · apply Concludes.silent
    intro o ended
    obtain ⟨-, rfl⟩ := finish_outcome ended
    rfl
  · split
    · exact .silent (by simp)
    dsimp only
    split
    · exact .silent (by simp)
    split
    · exact .silent (by simp)
    split
    · rename_i committed
      refine ⟨fun none => by contradiction, ?_, fun o c ended told => ?_, fun ended => ?_⟩
      · intro c same
        cases same
        exact ⟨rfl, _, rfl, rfl⟩
      · obtain ⟨-, rfl⟩ := finish_outcome ended
        exact .inl told
      · rcases committed with fate | fate <;> simp [fate, Fate.finish] at ended
    · rename_i aborted
      apply Concludes.silent
      intro o ended
      exact absurd (.inl (finish_outcome ended).1) aborted

theorem handleOnce_concludes (command : Command) (doc : Option MongoReceipt) (run : MongoRun) :
    Concludes command doc (handleOnce doc command run) := by
  unfold handleOnce
  split
  · exact executeOnce_concludes command none run
  rename_i previous
  split
  · refine ⟨fun _ => rfl, fun _ executed => by contradiction, fun o c ended told => ?_,
      fun _ => rfl⟩
    obtain ⟨-, rfl⟩ := finish_outcome ended
    cases told
    exact .inr ⟨previous, rfl, (previous.completion_entry command).symm⟩
  · exact executeOnce_concludes command (some previous) run

theorem handleRuns_concludes (command : Command) (doc : Option MongoReceipt)
    (runs : List MongoRun) : Concludes command doc (handleRuns command doc runs) := by
  induction runs generalizing doc with
  | nil => exact .silent (by simp)
  | cons run rest ih =>
    have first := handleOnce_concludes command doc run
    unfold handleRuns
    dsimp only
    split
    · rename_i rerun
      rw [first.kept (first.rerun rerun)]
      exact ih doc
    · exact first

theorem handle_concludes (command : Command) (doc : Option MongoReceipt) (runs : List MongoRun) :
    Concludes command doc (handle command doc runs) := by
  unfold handle
  split
  · exact .silent (by simp)
  · exact handleRuns_concludes command doc _

/-- The document is a success, a retryable failure of the command or a refusal of its
incarnation. -/
def MongoReceipt.Covers (d : MongoReceipt) (command : Command) : Prop :=
  d.success = true ∨ d.retryable = true ∧ d.commandID = command.id ∨
    d.retryable = false ∧
      d.incarnation = commandIDIncarnation command.idempotencyKey command.id
  deriving Decidable

theorem handleOnce_covered {run : MongoRun}
    (covered : command.deadlineAt ≤ run.now ∨ ∃ d ∈ doc, d.Covers command) :
    (handleOnce doc command run).executed = none := by
  unfold handleOnce
  split
  · rcases covered with late | ⟨d, found, -⟩
    · rw [executeOnce, if_pos (Int.not_lt.mpr late)]
    · contradiction
  rename_i previous
  split
  · rfl
  rename_i replays
  rcases covered with late | ⟨d, found, covers⟩
  · rw [executeOnce, if_pos (Int.not_lt.mpr late)]
  · cases found
    refine absurd ?_ replays
    rcases covers with success | ⟨retryable, own⟩ | ⟨final, own⟩ <;> simp_all [MongoReceipt.replays]

theorem handle_covered
    (covered : (∀ run ∈ runs, command.deadlineAt ≤ run.now) ∨ ∃ d ∈ doc, d.Covers command) :
    (Saga.handle command doc runs).executed = none := by
  have granted {runs : List MongoRun}
      (covered : ∀ run ∈ runs, command.deadlineAt ≤ run.now ∨ ∃ d ∈ doc, d.Covers command) :
      (handleRuns command doc runs).executed = none := by
    induction runs with
    | nil => rfl
    | cons run rest ih =>
      have first := handleOnce_covered (covered run mem_cons_self)
      unfold handleRuns
      dsimp only
      split
      · rw [(handleOnce_concludes command doc run).kept first]
        exact ih fun other member => covered other (mem_cons_of_mem _ member)
      · exact first
  unfold Saga.handle
  split
  · rfl
  · exact granted fun run member => covered.imp_left fun late => late run (mem_of_mem_take member)

/-- The inbox of one operation, with the executions committed and the completions
handed to the coordinator, in order. -/
structure MongoInbox where
  doc : Option MongoReceipt := none
  executed : List (String × Conclusion) := []
  told : List (String × Conclusion) := []

open MongoInbox

/-- A delivery of a command of the operation, or the removal of its receipt by the
time-to-live index. -/
inductive MongoInput where
  | handle (command : Command) (runs : List MongoRun)
  | expire

def RunEnd.entry : RunEnd → Option (String × Conclusion)
  | outcome o => o.completion.map Completion.entry
  | _ => none

def MongoInbox.step (s : MongoInbox) : MongoInput → MongoInbox
  | .expire => { s with doc := none }
  | .handle command runs =>
      let result := Saga.handle command s.doc runs
      { doc := result.doc
        executed := s.executed ++ (result.executed.map entry).toList
        told := s.told ++ result.ended.entry.toList }

/-- The delivery comes in order: its command has not concluded, its deadline has passed, or
no other command has replaced the document since, unless by a success or by a refusal of the
same incarnation. -/
def MongoInbox.inOrder (s : MongoInbox) : MongoInput → Prop
  | .expire => True
  | .handle command runs => (∀ e ∈ s.executed, e.1 ≠ command.id) ∨
      (∀ run ∈ runs, command.deadlineAt ≤ run.now) ∨ ∃ d ∈ s.doc, d.Covers command

instance (s : MongoInbox) (input : MongoInput) : Decidable (s.inOrder input) := by
  cases input with
  | expire => exact inferInstanceAs (Decidable True)
  | handle command runs => exact inferInstanceAs (Decidable (_ ∨ _))

structure MongoInbox.Sound (s : MongoInbox) : Prop where
  receipt : ∀ d, s.doc = some d → d.entry ∈ s.executed
  told : ∀ e ∈ s.told, e ∈ s.executed
  agreed : Agreed s.executed

theorem MongoInbox.Sound.step (s : MongoInbox) (input : MongoInput) (inOrder : s.inOrder input)
    (sound : s.Sound) : (s.step input).Sound := by
  cases input with
  | expire => exact ⟨nofun, sound.told, sound.agreed⟩
  | handle command runs =>
    obtain ⟨kept, stored, told, -⟩ := handle_concludes command s.doc runs
    have reported : ∀ e, (Saga.handle command s.doc runs).ended.entry = some e →
        (∃ c, (Saga.handle command s.doc runs).executed = some c ∧ c.entry = e) ∨ e ∈ s.executed := by
      intro e member
      cases ended : (Saga.handle command s.doc runs).ended with
      | outcome o =>
        rw [ended] at member
        obtain ⟨c, carried, rfl⟩ := map_eq_some_iff.mp member
        exact (told o c ended carried).imp (fun executed => ⟨c, executed, rfl⟩)
          fun ⟨d, here, same⟩ => same ▸ sound.receipt d here
      | error | rerun =>
        rw [ended] at member
        contradiction
    have settled := inOrder.symm.imp_left handle_covered
    have next := reported_sound sound.told sound.agreed settled (fun c here => (stored c here).1) reported
    refine ⟨fun d same => ?_, next.1, next.2⟩
    cases executed : (Saga.handle command s.doc runs).executed with
    | none => exact mem_append_left _ (sound.receipt d ((kept executed).symm.trans same))
    | some c =>
      obtain ⟨-, d', here, entry⟩ := stored c executed
      cases some.inj (here.symm.trans same)
      simp [MongoInbox.step, executed, entry]

/-- An entity with native steps, with the executions committed and the completions
handed to the coordinator, in order. -/
structure Entity where
  receipts : Table String StepReceipt := ∅
  executed : List (String × Conclusion) := []
  told : List (String × Conclusion) := []

def StepOutcome.entry (o : StepOutcome) : Option (String × Conclusion) :=
  o.completion.map Completion.entry

def Entity.step (retention : Duration) (s : Entity) (call : NativeCall) : Entity :=
  let result := runNativeStep retention s.receipts call
  { receipts := result.receipts
    executed := s.executed ++ (result.executed.map entry).toList
    told := s.told ++ (result.outcome.bind StepOutcome.entry).toList }

/-- The command has not concluded, or it is covered by its deadline or the receipt. -/
def Entity.inOrder (s : Entity) (call : NativeCall) : Prop :=
  (∀ e ∈ s.executed, e.1 ≠ call.command.id) ∨ call.Covered s.receipts
  deriving Decidable

theorem get_pruned (found : (pruneStepReceipts receipts keep cutoff order).get key = some r) :
    receipts.get key = some r := by
  have removed (operations : List String) (table : Table String StepReceipt)
      (found : (operations.foldl Table.remove table).get key = some r) : table.get key = some r := by
    induction operations generalizing table with
    | nil => exact found
    | cons operation rest ih =>
      have before := ih (table.remove operation) found
      by_cases same : key = operation
      · subst same
        rw [Table.get_remove_self] at before
        contradiction
      · rwa [Table.get_remove_ne table same] at before
  exact removed _ receipts found

/-- The conclusion of a receipt whose operation carries `payload` in all its commands. -/
def StepReceipt.conclusion (r : StepReceipt) (payload : Bytes) : Conclusion :=
  { success := r.success, retryable := false, error := r.error,
    data := if r.success then payload else [] }

def StepReceipt.entry (r : StepReceipt) (payload : Bytes) : String × Conclusion :=
  (r.commandID, r.conclusion payload)

theorem conclude_entry (command : Command) (r : StepReceipt) :
    (command.conclude r.commandID r.success r.error).entry = r.entry command.payload := by
  obtain ⟨id, incarnation, success, error, written⟩ := r
  cases success with
  | false => rfl
  | true =>
    simp only [entry, conclusion, payload, Command.conclude,
      successData, StepReceipt.entry, StepReceipt.conclusion]
    by_cases empty : command.payload = [] <;> simp [empty]

/-- What one delivery does: a replay repeats the stored conclusion, an execution
stores the one it commits. -/
structure Runs (payloadOf : String → Bytes) (call : NativeCall)
    (receipts : Table String StepReceipt) (result : NativeResult) : Prop where
  stored : ∀ key r, result.receipts.get key = some r → receipts.get key = some r ∨
    ∃ c, result.executed = some c ∧ c.entry = r.entry (payloadOf key)
  told : ∀ e, result.outcome.bind StepOutcome.entry = some e →
    (∃ c, result.executed = some c ∧ c.entry = e) ∨
      ∃ r, receipts.get call.command.idempotencyKey = some r ∧
        r.entry (payloadOf call.command.idempotencyKey) = e
  named : ∀ c, result.executed = some c → c.commandID = call.command.id

theorem Runs.silent (none : ∀ o, outcome = some o → o.completion = none) :
    Runs payloadOf call receipts { receipts, outcome } where
  stored _ _ found := .inl found
  told e same := by
    obtain ⟨o, here, carried⟩ := bind_eq_some_iff.mp same
    rw [StepOutcome.entry, none o here] at carried
    contradiction
  named _ executed := by contradiction

theorem runNativeStep_runs (retention : Duration) (receipts : Table String StepReceipt)
    (call : NativeCall)
    (payload : call.command.payload = payloadOf call.command.idempotencyKey) :
    Runs payloadOf call receipts (runNativeStep retention receipts call) := by
  unfold runNativeStep
  dsimp only
  split
  · exact .silent (by simp)
  split
  · exact .silent (by simp)
  · rename_i outcome begun
    rcases nativeBegin_done begun with rfl | ⟨receipt, found, rfl⟩
    · apply Runs.silent
      intro o same
      split at same <;> cases same
      rfl
    · refine ⟨fun _ _ kept => .inl kept, fun e same => ?_, fun _ executed => by contradiction⟩
      obtain ⟨o, here, carried⟩ := bind_eq_some_iff.mp same
      split at here <;> cases here
      rw [← some.inj carried]
      exact .inr ⟨receipt, found, payload ▸ (conclude_entry call.command receipt).symm⟩
  · split
    · exact .silent (by simp)
    rename_i success reason _
    refine ⟨fun key r found => ?_, fun e same => ?_, fun c executed => ?_⟩
    · have written := get_pruned found
      rw [Table.get_set] at written
      split at written
      · rename_i same
        refine .inr ⟨_, rfl, ?_⟩
        rw [same, ← payload, ← some.inj written]
        exact conclude_entry call.command (nativeReceipt call.command success reason call.done)
      · exact .inl written
    · obtain ⟨o, here, carried⟩ := bind_eq_some_iff.mp same
      split at here <;> cases here
      exact .inl ⟨_, rfl, some.inj carried⟩
    · rw [← some.inj executed]
      rfl

structure Entity.Sound (payloadOf : String → Bytes) (s : Entity) : Prop where
  receipt : ∀ key r, s.receipts.get key = some r → r.entry (payloadOf key) ∈ s.executed
  told : ∀ e ∈ s.told, e ∈ s.executed
  agreed : Agreed s.executed

theorem Entity.Sound.step (retention : Duration) (s : Entity) (call : NativeCall)
    (payload : call.command.payload = payloadOf call.command.idempotencyKey)
    (inOrder : s.inOrder call) (sound : s.Sound payloadOf) :
    (s.step retention call).Sound payloadOf := by
  obtain ⟨stored, told, named⟩ := runNativeStep_runs retention s.receipts call payload
  have settled := inOrder.symm.imp_left fun covered => covered.unexecuted retention
  have next := reported_sound sound.told sound.agreed settled named fun e same =>
    (told e same).imp_right fun ⟨r, found, same⟩ => same ▸ sound.receipt _ r found
  refine ⟨fun key r found => ?_, next.1, next.2⟩
  rcases stored key r found with before | ⟨c, here, same⟩
  · exact mem_append_left _ (sound.receipt key r before)
  · simp [Entity.step, here, same]

/-- One conclusion per command at a participant, along every sequence of deliveries in
order: at a Mongo inbox for any attempts, incarnations, handler results and clocks, and at
an entity with native steps whose commands of one operation carry one payload. -/
theorem one_conclusion_per_command (inputs : List MongoInput) (retention : Duration) (payloadOf : String → Bytes)
    (calls : List NativeCall) :
    (Along step inOrder {} inputs → Agreed (run step {} inputs).told) ∧
    ((∀ call ∈ calls, call.command.payload = payloadOf call.command.idempotencyKey) →
      Along (Entity.step retention) Entity.inOrder {} calls →
        Agreed (run (Entity.step retention) {} calls).told) := by
  refine ⟨fun along => ?_, fun payload along => ?_⟩
  · have start : MongoInbox.Sound {} := ⟨nofun, nofun, nofun⟩
    have sound := invariant_along MongoInbox.Sound.step start along
    exact sound.agreed.subset sound.told
  · have start : Entity.Sound payloadOf {} := ⟨nofun, nofun, nofun⟩
    have sound := invariant_along
      (fun s call ok => Entity.Sound.step retention s call ok.1 ok.2) start (along_mem payload along)
    exact sound.agreed.subset sound.told

/-! One operation with two attempts and a reopened incarnation, all before their
deadlines. -/
namespace Sample

def attempt (incarnation number : UInt32) : Command :=
  { id := commandID "a42:L:1:0" incarnation number, idempotencyKey := "a42:L:1:0",
    sagaID := "a42", sagaType := "order", definitionVersion := 1, businessKey := "42", step := 0,
    stepName := "pay", phase := .forward, attempt := number, topic := "shop.pay", payload := [],
    deadlineAt := Time.unixEpoch + 60 * second, createdAt := Time.unixEpoch, partition := 0 }

/-- A delivery to a Mongo step whose handler succeeds, or fails and may be retried. -/
def handled (command : Command) (success : Bool) : MongoInput :=
  .handle command [{
    now := Time.unixEpoch + second, later := Time.unixEpoch + second,
    written := Time.unixEpoch + second, fate := .commits,
    handler := some {
      commandID := "", idempotencyKey := "", sagaID := "", success,
      retryable := !success, data := none, error := if success then "" else "busy",
      completedAt := 0 } }]

/-- A delivery to a native step that succeeds or is refused. -/
def called (command : Command) (success : Bool) : NativeCall :=
  { command, now := Time.unixEpoch + second, business := some (success, "no funds"),
    done := Time.unixEpoch + second, order := [], reported := true }

end Sample

open Sample

/-- The first attempt fails, the second one overwrites its receipt, and the first one,
delivered again before its deadline, is executed again and succeeds. At the entity the
second command belongs to the incarnation that Resume opened. -/
theorem command_concludes_twice : ¬ Agreed (run step {}
      [handled (attempt 0 1) false, handled (attempt 0 2) false,
        handled (attempt 0 1) true]).told ∧
    ¬ Agreed (run (Entity.step 0) {}
      [called (attempt 0 1) false, called (attempt 1 1) false,
        called (attempt 0 1) true]).told := by
  decide

/-- Redelivered after it concluded, the same command is replayed. -/
theorem one_conclusion_redelivered : (run step {}
      [handled (attempt 0 1) false, handled (attempt 0 1) true,
        handled (attempt 0 2) true]).told.length = 3 ∧
    Agreed (run step {}
      [handled (attempt 0 1) false, handled (attempt 0 1) true,
        handled (attempt 0 2) true]).told ∧
    Agreed (run (Entity.step 0) {}
      [called (attempt 0 1) false, called (attempt 0 2) true,
        called (attempt 1 1) true, called (attempt 0 1) true]).told := by
  refine ⟨by decide, (one_conclusion_per_command _ 0 (fun _ => []) []).1 (by decide),
    (one_conclusion_per_command [] 0 (fun _ => []) _).2 (by decide) (by decide)⟩

end Roost.Saga
