import RoostCore.Versionstore.Calls

/-! The steps of the calls and of Redis keep what every call knows. -/
namespace Roost.Versionstore
open Go (Bytes)

variable {κ T : Type} [DecidableEq κ] {cfg : Config T}

section ends
variable {w : World κ T} {c : Nat} {call : Call κ T} {state : Settling κ T}

omit [DecidableEq κ] in
theorem transfers_none (free : after.stage.held = none) : Transfers w c after := by
  intro batch held
  rw [free] at held
  contradiction

omit [DecidableEq κ] in
theorem transfers_own (found : w.calls c = some call) (same : after.stage.held = call.stage.held) :
    Transfers w c after := by
  intro batch held _
  exact ⟨c, call, found, same ▸ held, .inl rfl⟩

theorem closes_tried (free : after.stage.held = none) (latest : Latest w call state.batch)
    (known : state.batch ∈ w.batches) (unexecuted : ¬ Executed w state.batch)
    (barred : Scripts.Superseded w.ledger state.batch.script ∨
      Alone w c state.batch ∧ w.ledger.copies state.batch.script = 0) :
    ∀ batch ∈ call.tried, Closed (w.setCall c after) batch := by
  obtain ⟨earlier, list, closed⟩ := latest
  rw [list]
  intro batch member
  rcases List.mem_cons.mp member with rfl | old
  · refine ⟨known, unexecuted, barred.imp_right fun ⟨alone, spent⟩ => ⟨spent, ?_⟩⟩
    intro other next found held
    by_cases here : other = c
    · subst here
      rw [setCall_self] at found
      cases found
      rw [free] at held
      contradiction
    · rw [setCall_other here] at found
      exact alone other next here found held
  · exact (closed batch old).setCall (transfers_none free)

theorem But.applied (but : But cfg w c) (latest : Latest w call state.batch) (known : state.batch ∈ w.batches)
    (executed : Executed w state.batch) (computed : Computed cfg call.op state.batch state.values) :
    Consistent cfg (w.setCall c (call.applied state)) := by
  have succeeded : Succeeded cfg w call state.batch state.values := ⟨latest, known, executed, computed⟩
  have free : (call.applied state).stage.held = none := by
    simp only [Call.applied]
    split <;> rfl
  have kept := (setCall_keeps (transfers_none free : Transfers w c (call.applied state))).succeeded succeeded
  refine but.setCall (transfers_none free) ?_
  simp only [Call.applied] at kept ⊢
  split at kept
  · rename_i keys mutate resumable op
    exact ⟨⟨state.batch, state.values, kept, rfl⟩, by simp [Call.finish, op, Report.Fits]⟩
  · rename_i key value op
    exact ⟨⟨state.batch, state.values, kept⟩, by simp [Call.finish, op, Report.Fits]⟩
  · rename_i key expect accepts op
    exact ⟨.inl ⟨state.batch, state.values, kept⟩, by simp [Call.finish, op, Report.Fits]⟩

/-- The write did not take effect and cannot any more. -/
theorem But.lost (but : But cfg w c) (distinct : call.op.keys.Nodup) (latest : Latest w call state.batch)
    (known : state.batch ∈ w.batches) (unexecuted : ¬ Executed w state.batch)
    (barred : Scripts.Superseded w.ledger state.batch.script ∨
      Alone w c state.batch ∧ w.ledger.copies state.batch.script = 0) :
    Consistent cfg (w.setCall c (call.lost state)) := by
  have free : (call.lost state).stage.held = none := by
    simp only [Call.lost, Call.reread]
    split
    · split
      · rfl
      rfl
    · rfl
    · rfl
  refine but.setCall (transfers_none free) ?_
  have tried := closes_tried free latest known unexecuted barred
  simp only [Call.lost] at tried ⊢
  split at tried
  · rename_i keys mutate resumable op
    split at tried
    · rename_i spent
      rw [if_pos spent]
      exact ⟨tried, by simp [Call.finish, op, Report.Fits]⟩
    · rename_i left
      rw [if_neg left]
      simp only [Call.reread, op] at tried ⊢
      exact ⟨by simpa only [op] using distinct, tried, [], by simp only [Operation.keys, List.nil_append], .nil⟩
  · rename_i key value op
    exact ⟨tried, by simp [Call.finish, op, Report.Fits]⟩
  · rename_i key expect accepts op
    exact ⟨tried, by simp [Call.finish, op, Report.Fits]⟩

theorem But.unknown (but : But cfg w c) (found : w.calls c = some call) (stage : call.stage = .settling state)
    (latest : Latest w call state.batch) (known : state.batch ∈ w.batches)
    (computed : Computed cfg call.op state.batch state.values) :
    Consistent cfg (w.setCall c (call.finish (.unknown state.batch))) := by
  have transfers : Transfers w c (call.finish (.unknown state.batch)) :=
    transfers_own found (by simp [stage, Call.finish, Stage.held])
  exact but.setCall transfers ⟨⟨(setCall_keeps transfers).latest latest, known, state.values, computed⟩, trivial⟩

theorem But.wait (but : But cfg w c) (found : w.calls c = some call)
    (stage : call.stage = .settling state) (distinct : call.op.keys.Nodup)
    (latest : Latest w call state.batch) (computed : Computed cfg call.op state.batch state.values)
    (next : Settling κ T) (same : next.batch = state.batch) (values : next.values = state.values)
    (op : after.op = call.op) (tried : after.tried = call.tried)
    (goes : after.stage = .settling next)
    (progress : Transfers w c after → Progress (w.setCall c after) c next) :
    Consistent cfg (w.setCall c after) := by
  have transfers : Transfers w c after := transfers_own found (by simp [stage, goes, Stage.held, same])
  refine but.setCall transfers ?_
  simp only [Sound, goes]
  refine ⟨op ▸ distinct, ?_, progress transfers, ?_⟩
  · obtain ⟨earlier, list, closed⟩ := (setCall_keeps transfers).latest latest
    exact ⟨earlier, by rw [tried, list, same], closed⟩
  · rw [op, same, values]
    exact computed

end ends

section calls
variable {w : World κ T} {c : Nat} {call : Call κ T}

theorem Sound.settling (sound : Sound cfg w c call) (stage : call.stage = .settling state) :
    call.op.keys.Nodup ∧ Latest w call state.batch ∧ Progress w c state ∧
      Computed cfg call.op state.batch state.values := by
  simp only [Sound, stage] at sound
  exact sound

theorem look_again (batch : Batch κ) : Doubted w batch (.look batch.writes []) := by
  constructor
  · exact fun _ member => member
  · simp

theorem receive_consistent (con : Consistent cfg w) (found : w.calls c = some call) :
    Consistent cfg (w.receive c call) := by
  have sound := con.sound c call found
  simp only [World.receive]
  split
  · rename_i state stage
    obtain ⟨distinct, latest, progress, computed⟩ := sound.settling stage
    split
    · rename_i seq waits
      refine (con.but c).applied latest progress.known ?_ computed
      cases sure : state.ambiguous with
      | false =>
        have first := (progress.first sure).2
        rw [waits] at first
        exact first.2.mpr rfl
      | true =>
        have doubted := progress.doubted sure
        rw [waits] at doubted
        exact doubted rfl
    · rename_i seq waits
      split
      · rename_i unsure
        refine (con.but c).wait found stage distinct latest computed { state with wait := .look state.batch.writes [] }
          rfl rfl rfl rfl rfl ?_
        intro _
        exact ⟨progress.known, trivial, fun sure => absurd unsure (by simp [show state.ambiguous = false from sure]),
          fun _ => look_again state.batch⟩
      · rename_i sure
        obtain ⟨alone, first⟩ := progress.first (by simpa using sure)
        rw [waits] at first
        refine (con.but c).lost distinct latest progress.known ?_ (.inr ⟨alone, first.1⟩)
        intro ran
        exact absurd (first.2.mp ran) (by decide)
    · exact con
  · exact con

theorem lose_consistent (con : Consistent cfg w) (found : w.calls c = some call) : Consistent cfg (w.lose c call) := by
  have sound := con.sound c call found
  simp only [World.lose]
  split
  · rename_i state stage
    obtain ⟨distinct, latest, progress, computed⟩ := sound.settling stage
    split
    · refine (con.but c).wait found stage distinct latest computed
        { state with ambiguous := true, wait := .look state.batch.writes [] } rfl rfl rfl rfl rfl ?_
      intro _
      exact ⟨progress.known, trivial, nofun, fun _ => look_again state.batch⟩
    · exact con
  · exact con

theorem judged (con : Consistent cfg w) (known : batch ∈ w.batches) (member : write ∈ batch.writes) :
    Told w batch (judge write (w.store write.key)) := by
  generalize verdict : judge write (w.store write.key) = told
  cases told with
  | unproven => trivial
  | applied => exact judge_applied con.toRegistered known member verdict
  | lost => exact judge_lost con.toRegistered known member verdict
  | notRun => exact judge_notRun member verdict

theorem judgeAll_mem (all : judgeAll verdicts = verdict) (proved : verdict ≠ .unproven) :
    verdict ∈ verdicts := by
  simp only [judgeAll] at all
  split at all
  · exact all ▸ by assumption
  split at all
  · exact all ▸ by assumption
  split at all
  · exact all ▸ by assumption
  · exact absurd all.symm proved

theorem Progress.looking (progress : Progress w c state) (waits : state.wait = .look todo verdicts) :
    state.ambiguous = true ∧ Doubted w state.batch (.look todo verdicts) := by
  rw [← waits]
  cases sure : state.ambiguous with
  | true => exact ⟨rfl, progress.doubted sure⟩
  | false =>
    have first := (progress.first sure).2
    rw [waits] at first
    exact first.elim

theorem look_consistent (con : Consistent cfg w) (found : w.calls c = some call) (fails cancelled : Bool) :
    Consistent cfg (w.look c call fails cancelled) := by
  have sound := con.sound c call found
  simp only [World.look]
  split
  · rename_i state stage
    obtain ⟨distinct, latest, progress, computed⟩ := sound.settling stage
    split
    · rename_i write todo verdicts waits
      obtain ⟨unsure, doubted⟩ := progress.looking waits
      split
      · exact (con.but c).unknown found stage latest progress.known computed
      refine (con.but c).wait found stage distinct latest computed
        { state with wait := .look todo (verdicts ++ [judge write (w.store write.key)]) }
        rfl rfl rfl rfl rfl ?_
      intro transfers
      refine ⟨progress.known, trivial, fun sure => absurd unsure (by simp [show state.ambiguous = false from sure]),
        fun _ => ⟨fun other member => doubted.1 other (List.mem_cons_of_mem _ member), ?_⟩⟩
      intro verdict member
      apply (setCall_keeps transfers).told
      rcases mem_snoc.mp member with old | rfl
      · exact doubted.2 verdict old
      · exact judged con progress.known (doubted.1 write List.mem_cons_self)
    · rename_i verdicts waits
      obtain ⟨unsure, doubted⟩ := progress.looking waits
      split
      · rename_i all
        exact (con.but c).applied latest progress.known (doubted.2 _ (judgeAll_mem all (by decide))) computed
      · rename_i all
        obtain ⟨unexecuted, superseded⟩ := doubted.2 _ (judgeAll_mem all (by decide))
        exact (con.but c).lost distinct latest progress.known unexecuted (.inl superseded)
      · exact (con.but c).unknown found stage latest progress.known computed
      · rename_i all
        split
        · exact (con.but c).unknown found stage latest progress.known computed
        refine (con.but c).wait found stage distinct latest computed { state with wait := .send }
          rfl rfl rfl rfl rfl ?_
        intro _
        exact ⟨progress.known, trivial, fun sure => absurd unsure (by simp [show state.ambiguous = false from sure]),
          fun _ => doubted.2 _ (judgeAll_mem all (by decide))⟩
    · exact con
  · exact con

end calls

end Roost.Versionstore
