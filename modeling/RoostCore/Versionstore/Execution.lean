import Mathlib.Data.List.Perm.Basic
import RoostCore.Versionstore.Runs

/-! Redis executes a command, at any moment after it was sent. Whoever still waits for it
learns the result; for every other call the execution is the work of a stranger. -/
namespace Roost.Versionstore
open List Function
open Go (Bytes)
open World

variable {κ T : Type} [DecidableEq κ] {cfg : Config T} {w : World κ T}

/-- The world after an execution, before the reply is delivered. -/
def World.ran (w : World κ T) (index : Nat) (batch : Batch κ) : World κ T :=
  if batch.script.Passes w.store then
    { w with
      pool := w.pool.eraseIdx index
      store := batch.script.apply w.store
      log := w.log ++ [⟨batch, batch.writes.map (fun write => w.store write.key),
        batch.writes.map (fun write => batch.script.apply w.store write.key)⟩] }
  else { w with pool := w.pool.eraseIdx index }

theorem execute_eq (index : Nat) : w.execute index = match w.pool[index]? with
    | none => w
    | some command => (w.ran index command.batch).deliver command (Decidable.decide (command.batch.script.Passes w.store)) := by
  simp only [execute, ran]
  cases w.pool[index]? with
  | none => rfl
  | some command =>
    by_cases passes : command.batch.script.Passes w.store
    · simp [passes]
    · simp [passes]

section frame
variable {index : Nat} (batch : Batch κ)

theorem ran_calls : (w.ran index batch).calls = w.calls := by
  simp only [ran]
  split <;> rfl

theorem ran_batches : (w.ran index batch).batches = w.batches := by
  simp only [ran]
  split <;> rfl

theorem ran_sends : (w.ran index batch).sends = w.sends := by
  simp only [ran]
  split <;> rfl

theorem ran_pool : (w.ran index batch).pool = w.pool.eraseIdx index := by
  simp only [ran]
  split <;> rfl

end frame

section executed
variable {index : Nat} {command : Command κ} (found : w.pool[index]? = some command)
include found

omit [DecidableEq κ] in
theorem pool_perm : w.pool.Perm (command :: w.pool.eraseIdx index) := by
  obtain ⟨bound, same⟩ := List.getElem?_eq_some_iff.mp found
  rw [← same]
  exact (getElem_cons_eraseIdx_perm bound).symm

theorem ran_ledger : (w.ran index command.batch).ledger = w.ledger.execute command.batch.script := by
  have copies : (fun script => (w.pool.eraseIdx index).countP fun other => other.batch.script = script) =
      update w.ledger.copies command.batch.script (w.ledger.copies command.batch.script - 1) := by
    funext script
    have counted : w.ledger.copies script = (w.pool.eraseIdx index).countP (fun other => other.batch.script = script) +
        if command.batch.script = script then 1 else 0 := by
      simp only [ledger]
      rw [(pool_perm found).countP_eq, countP_cons]
      simp
    by_cases same : script = command.batch.script
    · subst same
      rw [update_self, counted]
      simp
    · rw [update_of_ne same, counted, if_neg (Ne.symm same), Nat.add_zero]
  by_cases passes : command.batch.script.Passes w.store
  · simp only [ran, passes, if_true, ledger, Scripts.Ledger.execute]
    rw [copies]
    simp [ledger]
  · simp only [ran, passes, if_false, ledger, Scripts.Ledger.execute]
    rw [copies]
    rfl

theorem command_copies : 0 < w.ledger.copies command.batch.script :=
  countP_pos_iff.mpr ⟨command, mem_of_getElem? found, by simp⟩

theorem ran_executed (batch : Batch κ) : Executed (w.ran index command.batch) batch ↔
    Executed w batch ∨ command.batch.script.Passes w.store ∧ batch.script = command.batch.script := by
  simp only [Executed, ran_ledger found, Scripts.Ledger.execute]
  split
  · rename_i passes
    have stored : command.batch.script.Passes w.store := passes
    simp [stored]
  · rename_i fails
    have stored : ¬ command.batch.script.Passes w.store := fails
    simp [stored]

theorem ran_copies_other {batch : Batch κ} (different : batch.script ≠ command.batch.script) :
    (w.ran index command.batch).ledger.copies batch.script = w.ledger.copies batch.script := by
  rw [ran_ledger found, Scripts.Ledger.execute]
  split <;> exact update_of_ne different ..

theorem ran_copies_self : (w.ran index command.batch).ledger.copies command.batch.script =
    w.ledger.copies command.batch.script - 1 := by
  rw [ran_ledger found, Scripts.Ledger.execute]
  split <;> exact update_self ..

theorem ran_keeps (reg : Registered cfg w) : Keeps w (w.ran index command.batch) := by
  have wrote : ∀ script write, w.ledger.Wrote script write → (w.ran index command.batch).ledger.Wrote script write := by
    rintro script write ⟨member, inside⟩
    refine ⟨?_, inside⟩
    rw [ran_ledger found, Scripts.Ledger.execute]
    split
    · exact mem_append_left _ member
    · exact member
  have superseded : ∀ batch, ¬ Executed w batch → Scripts.Superseded w.ledger batch.script →
      ¬ Executed (w.ran index command.batch) batch := by
    intro batch unexecuted barred ran
    rcases (ran_executed found batch).mp ran with before | ⟨passes, same⟩
    · exact unexecuted before
    · exact barred.not_passes reg.lasting (same ▸ passes)
  refine ⟨fun batch member => ?_, fun batch ran => (ran_executed found batch).mpr (.inl ran), wrote, superseded, ?_, ?_⟩
  · rw [ran_batches]
    exact member
  · intro batch closed
    rcases closed.barred with barred | gone
    · have unexecuted := superseded batch closed.unexecuted barred
      obtain ⟨write, member, value, base, other, second, before, rest⟩ := barred
      refine ⟨by rw [ran_batches]; exact closed.known, unexecuted, ?_⟩
      exact .inl ⟨write, member, value, base, other, second, wrote other second before, rest⟩
    · -- no copy is left, so the executed one is another
      have different : batch.script ≠ command.batch.script := by
        intro same
        have some := command_copies found
        rw [← same, gone.copies] at some
        exact absurd some (Nat.lt_irrefl 0)
      refine ⟨by rw [ran_batches]; exact closed.known, ?_, .inr ⟨?_, ?_⟩⟩
      · intro ran
        rcases (ran_executed found batch).mp ran with before | ⟨-, same⟩
        · exact closed.unexecuted before
        · exact different same
      · rw [ran_copies_other found different]
        exact gone.copies
      · rw [ran_calls]
        exact gone.unheld
  · rintro seq batch ⟨bound, owns⟩
    refine ⟨by rw [ran_sends]; exact bound, ?_⟩
    rw [ran_pool]
    intro other member same
    exact owns other (mem_of_mem_eraseIdx member) same

theorem ran_registered (reg : Registered cfg w) : Registered cfg (w.ran index command.batch) := by
  have known := reg.pool command (mem_of_getElem? found)
  have lasting : Scripts.Lasting (w.ran index command.batch).ledger := by
    rw [ran_ledger found]
    exact reg.lasting.move (.execute _ (command_copies found))
  constructor <;> try rw [ran_batches]
  · exact lasting
  · exact reg.ids
  · exact reg.prepared
  · exact reg.tokens
  · rw [ran_pool]
    intro other member
    exact reg.pool other (mem_of_mem_eraseIdx member)
  · simp only [ran]
    split
    · rename_i passes
      intro effect member
      rcases mem_snoc.mp member with old | rfl
      · exact reg.log effect old
      refine ⟨known, ?_, ?_⟩
      · apply map_congr_left
        intro write inside
        exact passes write.toWrite (mem_map.mpr ⟨write, inside, rfl⟩)
      · apply map_congr_left
        intro write inside
        exact reg.lasting.apply_mem (script_known known) (mem_map.mpr ⟨write, inside, rfl⟩)
    · exact reg.log

/-- A call that does not wait for this command sees nothing of it on its first send. -/
theorem ran_first
    (apart : ∀ state, call.stage = .settling state → c = command.caller → state.wait ≠ .awaiting command.seq none) :
    KeepsFirst w (w.ran index command.batch) c call := by
  intro state stage mine alone first
  have different : state.batch.script ≠ command.batch.script := by
    intro same
    have some := command_copies found
    rw [← same] at some
    generalize waits : state.wait = wait at first
    rcases wait with _ | ⟨seq, _ | result⟩ | _
    · exact absurd first.1 (Nat.ne_of_gt some)
    · -- the one copy on its way is the one that this call waits for
      obtain ⟨one, present, -⟩ := first
      have rest : (w.pool.eraseIdx index).countP (fun other => other.batch.script = state.batch.script) = 0 := by
        simp only [ledger] at one
        rw [(pool_perm found).countP_eq, countP_cons] at one
        simp only [same, decide_true, if_true] at one ⊢
        omega
      have own : (⟨c, seq, state.batch⟩ : Command κ) = command := by
        rcases mem_cons.mp ((pool_perm found).mem_iff.mp present) with here | later
        · exact here
        · have absent := countP_eq_zero.mp rest _ later
          simp at absent
      have caller : c = command.caller := congrArg Command.caller own
      refine apart state stage caller ?_
      rw [waits, ← own]
    · exact absurd first.1 (Nat.ne_of_gt some)
    · exact first.elim
  have copies := ran_copies_other found different
  have ran : Executed (w.ran index command.batch) state.batch ↔ Executed w state.batch := by
    rw [ran_executed found]
    exact or_iff_left fun both => different both.2
  refine ⟨by simpa [Alone, ran_calls] using alone, ?_⟩
  generalize state.wait = wait at first
  rcases wait with _ | ⟨seq, _ | result⟩ | _
  · exact ⟨copies.trans first.1, fun now => first.2 (ran.mp now)⟩
  · refine ⟨copies.trans first.1, ?_, fun now => first.2.2 (ran.mp now)⟩
    rw [ran_pool]
    rcases mem_cons.mp ((pool_perm found).mem_iff.mp first.2.1) with here | later
    · exact absurd (congrArg (fun other : Command κ => other.batch.script) here) different
    · exact later
  · exact ⟨copies.trans first.1, ran.trans first.2⟩
  · exact first

theorem ran_but (con : Consistent cfg w) : But cfg (w.ran index command.batch) command.caller := by
  refine { toRegistered := ran_registered found con.toRegistered, seqs := ?_, others := ?_ }
  · rw [ran_pool, ran_sends]
    intro other member
    exact con.seqs other (mem_of_mem_eraseIdx member)
  · rw [ran_calls]
    intro other call different present
    refine (ran_keeps found con.toRegistered).sound (ran_first found ?_) (con.sound other call present)
    intro _ _ same
    exact absurd same different

theorem execute_consistent (con : Consistent cfg w) : Consistent cfg ((w.ran index command.batch).deliver command
    (Decidable.decide (command.batch.script.Passes w.store))) := by
  have but := ran_but found con
  have keeps := ran_keeps found con.toRegistered
  -- whoever does not wait for the command goes on as before
  have unaware : ∀ {call : Call κ T}, w.calls command.caller = some call →
      (∀ state, call.stage = .settling state → state.wait ≠ .awaiting command.seq none) →
      Consistent cfg (w.ran index command.batch) := by
    intro call present apart
    refine but.complete (by rw [ran_calls]; exact present) ?_
    exact keeps.sound (ran_first found fun state stage _ => apart state stage)
      (con.sound _ call present)
  simp only [deliver]
  split
  · rename_i call present
    rw [ran_calls] at present
    split
    · rename_i state stage
      split
      · rename_i seq waits
        split
        · rename_i mine
          obtain ⟨distinct, latest, progress, computed⟩ := (con.sound _ call present).settling stage
          have awaits := progress.awaits
          rw [waits] at awaits
          have same : command.batch = state.batch := awaits.2 command (mem_of_getElem? found) mine.symm
          refine but.wait (by rw [ran_calls]; exact present) stage distinct (keeps.latest latest) computed
            { state with wait := .awaiting seq (some (Decidable.decide (command.batch.script.Passes w.store))) }
            rfl rfl rfl rfl rfl ?_
          intro transfers
          refine ⟨keeps.known _ progress.known, trivial, ?_, ?_⟩
          · intro sure
            obtain ⟨alone, first⟩ := progress.first sure
            rw [waits] at first
            obtain ⟨one, -, unexecuted⟩ := first
            refine ⟨?_, ?_, ?_⟩
            · intro other after different held
              rw [setCall_other different, ran_calls] at held
              exact alone other after different held
            · rw [setCall_ledger, ← same, ran_copies_self found, same, one]
            · have ran := ran_executed found state.batch
              simp only [decide_eq_true_eq]
              constructor
              · intro now
                exact ((ran.mp now).resolve_left unexecuted).1
              · intro passes
                exact ran.mpr (.inr ⟨passes, by rw [same]⟩)
          · intro _ yes
            refine (ran_executed found state.batch).mpr (.inr ⟨?_, by rw [same]⟩)
            simpa using yes
        · rename_i foreign
          refine unaware present ?_
          intro other settling awaiting
          obtain rfl := Stage.settling.inj (stage.symm.trans settling)
          rw [waits] at awaiting
          exact foreign (Wait.awaiting.inj awaiting).1
      · rename_i other
        refine unaware present ?_
        intro again settling awaiting
        obtain rfl := Stage.settling.inj (stage.symm.trans settling)
        exact other _ awaiting
    · rename_i other
      refine unaware present ?_
      intro state settling
      exact absurd settling (other state)
  · rename_i absent
    refine { but with sound := ?_ }
    intro c call present
    refine but.others c call ?_ present
    rintro rfl
    rw [absent] at present
    contradiction

end executed

theorem step_consistent (w : World κ T) (input : Input κ T) (distinct : DistinctTokens w input)
    (con : Consistent cfg w) : Consistent cfg (w.step cfg input) := by
  have acts : ∀ (c : Nat) (step : Call κ T → World κ T),
      (∀ call, w.calls c = some call → Consistent cfg (step call)) → Consistent cfg (w.act c step) := by
    intro c step each
    simp only [act]
    split
    · exact con
    · rename_i call found
      exact each call found
  cases input with
  | start c op resume =>
    simp only [step]
    split
    · exact con
    · exact begin_consistent con op resume
  | read c fails => exact acts c _ fun call found => read_consistent con found fails
  | prepare c random => exact acts c _ fun call found => prepare_consistent con found distinct
  | send c refused => exact acts c _ fun call found => send_consistent con found refused
  | receive c => exact acts c _ fun call found => receive_consistent con found
  | lose c => exact acts c _ fun call found => lose_consistent con found
  | look c fails cancelled => exact acts c _ fun call found => look_consistent con found fails cancelled
  | execute index =>
    simp only [step]
    rw [execute_eq]
    split
    · exact con
    · rename_i command found
      exact execute_consistent found con

theorem empty_consistent : Consistent cfg (empty : World κ T) := by
  have lasting : Scripts.Lasting (empty : World κ T).ledger := Scripts.Lasting.empty
  refine { lasting, ids := ?_, prepared := ?_, tokens := ?_, pool := ?_, log := ?_, seqs := ?_, sound := ?_ }
  all_goals simp [empty]

theorem run_consistent {inputs : List (Input κ T)}
    (distinct : Along (step cfg) DistinctTokens empty inputs) :
    Consistent cfg (run (step cfg) empty inputs) :=
  invariant_along step_consistent empty_consistent distinct

end Roost.Versionstore
