import RoostCore.Versionstore.Preparing

/-! Starting, preparing, sending and executing: the steps that change the commands or the
store, and whole runs. -/
namespace Roost.Versionstore
open List Option
open Go (Bytes)

variable {κ T : Type} [DecidableEq κ] {cfg : Config T}

section calls
variable {w : World κ T} {c : Nat} {call : Call κ T}

theorem Sound.reading (sound : Sound cfg w c call) (stage : call.stage = .reading todo raws) :
    call.op.keys.Nodup ∧ (∀ batch ∈ call.tried, Closed w batch) ∧
      ∃ read, call.op.keys = read ++ todo ∧ List.Forall₂ (Seen w) read raws := by
  simp only [Sound, stage] at sound
  exact sound

/-- The batch that a call can still send is in the records. -/
theorem Sound.known_of_held (sound : Sound cfg w c call) (held : call.stage.held = some batch) :
    batch ∈ w.batches := by
  simp only [Sound] at sound
  split at sound
  · rename_i reading
    simp [reading, Stage.held] at held
  · rename_i state settling
    simp only [settling, Stage.held, some.injEq] at held
    exact held ▸ sound.2.2.1.known
  · rename_i report done
    simp only [done] at held
    cases report with
    | unknown batch =>
      simp only [Stage.held, some.injEq] at held
      exact held ▸ sound.1.2.1
    | _ => simp [Stage.held] at held

theorem But.fail (but : But cfg w c) (closed : ∀ batch ∈ call.tried, Closed w batch) :
    Consistent cfg (w.setCall c (call.finish .failed)) := by
  have transfers : Transfers w c (call.finish .failed) := transfers_none rfl
  exact but.setCall transfers ⟨fun batch member => (closed batch member).setCall transfers, trivial⟩

theorem read_consistent (con : Consistent cfg w) (found : w.calls c = some call) (fails : Bool) :
    Consistent cfg (w.read cfg c call fails) := by
  have sound := con.sound c call found
  simp only [World.read]
  split
  · rename_i key todo raws stage
    obtain ⟨distinct, closed, read, keys, seen⟩ := sound.reading stage
    split
    · exact (con.but c).fail closed
    split
    · exact (con.but c).fail closed
    have transfers : Transfers w c { call with stage := .reading todo (raws ++ [w.store key]) } := transfers_none rfl
    refine (con.but c).setCall transfers ⟨distinct, fun batch member => (closed batch member).setCall transfers,
      read ++ [key], by simp [keys], ?_⟩
    refine rel_append seen (.cons ?_ .nil)
    intro value stored
    exact con.lasting.stored key value stored
  · exact con

omit [DecidableEq κ] in
theorem sameWrite_carries (same : sameWrite cfg write value = some true) :
    Carries cfg write value := by
  simp only [sameWrite] at same
  split at same
  · rename_i payload header encoded known
    obtain ⟨raw, next, parsed⟩ := map_eq_some_iff.mp known
    refine ⟨raw, payload, next, encoded, ?_⟩
    rw [← (parseEnvelope_ok parsed).2.1]
    simpa [eq_comm] using same
  · contradiction

theorem resumedWrite_open (resumed : resumedWrite w op earlier = some (batch, write)) :
    batch.writes = [write] ∧ op.resumeKey = some write.key ∧
      ∃ holder before, w.calls holder = some before ∧ before.stage = .done (.unknown batch) := by
  simp only [resumedWrite] at resumed
  split at resumed
  · rename_i before remaining tried unknown found
    split at resumed
    · rename_i only single
      split at resumed
      · rename_i keys
        cases resumed
        obtain ⟨holder, rfl, present⟩ := bind_eq_some_iff.mp found
        exact ⟨single, keys.2, holder, _, present, rfl⟩
      · contradiction
    · contradiction
  · contradiction

theorem But.resume (but : But cfg w c) (distinct : op.keys.Nodup) (known : batch ∈ w.batches)
    (held : ∃ holder before, w.calls holder = some before ∧ before.stage = .done (.unknown batch))
    (computed : Computed cfg op batch values) :
    Consistent cfg (w.setCall c (Call.settle ⟨op, remaining, [], stage⟩ batch values true)) := by
  have transfers : Transfers w c (Call.settle ⟨op, remaining, [], stage⟩ batch values true) := by
    intro other same _
    cases same
    obtain ⟨holder, before, present, unknown⟩ := held
    exact ⟨holder, before, present, by simp [unknown, Stage.held], .inr unknown⟩
  exact but.setCall transfers ⟨distinct, ⟨[], rfl, by simp⟩, ⟨known, trivial, fun sure => by contradiction, fun _ => look_again batch⟩, computed⟩

theorem begin_consistent (con : Consistent cfg w) (op : Operation κ T) (resume : Option Nat) :
    Consistent cfg (w.setCall c (begin cfg op (resumedWrite w op resume))) := by
  have fails : ∀ {remaining : Nat} {stage : Stage κ T},
      Consistent cfg (w.setCall c (Call.finish ⟨op, remaining, [], stage⟩ .failed)) := by
    intro remaining stage
    exact (con.but c).setCall (transfers_none rfl) ⟨by simp [Final, Call.finish], trivial⟩
  have reads : op.keys.Nodup → Consistent cfg (w.setCall c ⟨op, cfg.maxAttempts, [], .reading op.keys []⟩) := by
    intro distinct
    exact (con.but c).setCall (transfers_none rfl) ⟨distinct, by simp, [], rfl, .nil⟩
  cases resumed : resumedWrite w op resume with
  | none =>
    cases op with
    | loop keys mutate resumable =>
      simp only [begin]
      split
      · exact fails
      · rename_i proper
        exact reads (not_not.mp (not_or.mp proper).2)
    | create key value => exact reads nodup_nil
    | delete key expect accepts => exact reads (nodup_singleton key)
  | some pair =>
    obtain ⟨batch, write⟩ := pair
    obtain ⟨single, key, held⟩ := resumedWrite_open resumed
    have differs : ∀ {remaining : Nat} {stage : Stage κ T},
        Consistent cfg (w.setCall c (Call.finish ⟨op, remaining, [], stage⟩ .tokenMismatch)) := by
      intro remaining stage
      exact (con.but c).setCall (transfers_none rfl) ⟨by simp [Final, Call.finish], isSome_of_mem key⟩
    have known : batch ∈ w.batches := by
      obtain ⟨holder, before, present, unknown⟩ := held
      exact (con.sound holder before present).known_of_held (by rw [unknown]; rfl)
    have prepared := con.prepared batch known write (by simp [single])
    cases op with
    | loop keys mutate resumable =>
      obtain ⟨rfl, rfl⟩ : keys = [write.key] ∧ resumable = true := by
        simp only [Operation.resumeKey] at key
        split at key
        · rename_i one _ _ same
          obtain ⟨rfl, rfl, rfl⟩ := Operation.loop.inj same
          exact ⟨by rw [some.inj key], rfl⟩
        · contradiction
        · contradiction
        · contradiction
      simp only [begin]
      split
      · exact differs
      split
      · exact fails
      rename_i base decoded
      split
      · exact fails
      · exact differs
      · rename_i next saves
        split
        · exact fails
        · exact differs
        rename_i same
        refine (con.but c).resume (nodup_singleton _) known held ⟨by simp [single], ⟨[base], ?_, ?_⟩, ?_⟩
        · simp [single, decoded]
        · simpa [single] using saves
        · rw [single]
          exact .cons (sameWrite_carries same) .nil
      · exact fails
    | create k value =>
      obtain rfl : k = write.key := some.inj key
      simp only [begin]
      split
      · exact differs
      rename_i kind
      split
      · exact fails
      · exact differs
      rename_i same
      refine (con.but c).resume nodup_nil known held ⟨write, single, rfl, ?_, sameWrite_carries same⟩
      have shape := prepared.kind
      rw [not_not.mp kind] at shape
      exact shape.1
    | delete k expect accepts =>
      obtain rfl : k = write.key := some.inj key
      simp only [begin]
      split
      · exact differs
      rename_i kind
      split
      · exact differs
      rename_i version
      refine (con.but c).resume (nodup_singleton _) known held ⟨write, single, rfl, ?_, not_not.mp version⟩
      have shape := prepared.kind
      rw [not_not.mp kind] at shape
      exact shape

end calls

section sending
variable {w : World κ T} {c : Nat} {call : Call κ T}

/-- The world with one more copy on its way. -/
def World.post (w : World κ T) (c : Nat) (batch : Batch κ) : World κ T :=
  { w with pool := w.pool ++ [⟨c, w.sends, batch⟩], sends := w.sends + 1 }

theorem post_ledger (batch : Batch κ) : (w.post c batch).ledger = w.ledger.send batch.script := by
  simp only [World.ledger, World.post, Scripts.Ledger.send, Scripts.Ledger.mk.injEq, true_and, and_true]
  funext script
  by_cases same : script = batch.script
  · subst same
    simp [countP_append]
  · simp [countP_append, Function.update_of_ne same, Ne.symm same]

theorem post_copies_other (reg : Registered cfg w) (known : batch ∈ w.batches)
    (second : other ∈ w.batches) (different : other ≠ batch) :
    (w.post c batch).ledger.copies other.script = w.ledger.copies other.script := by
  rw [post_ledger]
  refine Function.update_of_ne ?_ _ _
  intro same
  exact different (reg.script_inj second known same)

theorem post_keeps (reg : Registered cfg w) (found : w.calls c = some call)
    (known : batch ∈ w.batches) (held : call.stage.held = some batch) :
    Keeps w (w.post c batch) := by
  refine ⟨fun _ member => member, fun _ ran => ran, fun _ _ wrote => wrote, fun _ unexecuted _ => unexecuted, ?_, ?_⟩
  · intro other closed
    refine ⟨closed.known, closed.unexecuted, closed.barred.imp_right fun gone => ⟨?_, gone.unheld⟩⟩
    rw [post_copies_other reg known closed.known, gone.copies]
    rintro rfl
    exact gone.unheld c call found held
  · rintro seq other ⟨bound, owns⟩
    refine ⟨Nat.lt_succ_of_lt bound, ?_⟩
    intro command member same
    rcases mem_snoc.mp member with old | rfl
    · exact owns command old same
    · exact absurd same (Nat.ne_of_gt bound)

/-- A call that has its batch to itself does not see the sends of others. -/
theorem post_first (reg : Registered cfg w) (found : w.calls c = some call)
    (known : batch ∈ w.batches) (held : call.stage.held = some batch) (different : other ≠ c) :
    KeepsFirst w (w.post c batch) other before := by
  intro state _ mine alone first
  have apart : state.batch ≠ batch := by
    rintro rfl
    exact alone c call different.symm found held
  have copies := post_copies_other (c := c) reg known mine apart
  refine ⟨alone, ?_⟩
  generalize state.wait = wait at first
  match wait with
  | .send => exact ⟨copies.trans first.1, first.2⟩
  | .awaiting seq none => exact ⟨copies.trans first.1, mem_append_left _ first.2.1, first.2.2⟩
  | .awaiting seq (some result) => exact ⟨copies.trans first.1, first.2⟩

theorem send_consistent (con : Consistent cfg w) (found : w.calls c = some call) (refused : Bool) :
    Consistent cfg (w.send c call refused) := by
  have sound := con.sound c call found
  simp only [World.send]
  split
  · rename_i state stage
    obtain ⟨distinct, latest, progress, computed⟩ := sound.settling stage
    split
    · rename_i waits
      split
      · -- a copy goes out
        have held : call.stage.held = some state.batch := by simp [stage, Stage.held]
        have keeps := post_keeps con.toRegistered found progress.known held
        have allowed : state.batch.script.Based ∨
            w.ledger.copies state.batch.script = 0 ∧ state.batch.script ∉ w.ledger.log := by
          cases sure : state.ambiguous with
          | false =>
            have first := (progress.first sure).2
            rw [waits] at first
            exact .inr first
          | true =>
            have doubted := progress.doubted sure
            rw [waits] at doubted
            exact .inl doubted
        have lasting : Scripts.Lasting (w.post c state.batch).ledger := by
          rw [post_ledger]
          exact con.lasting.send (script_known progress.known) allowed
        have but : But cfg (w.post c state.batch) c := by
          refine { con with lasting, pool := ?_, seqs := ?_, others := ?_ }
          · exact forall_mem_append.mpr ⟨con.pool, forall_mem_singleton.mpr progress.known⟩
          · intro command member
            rcases mem_snoc.mp member with old | rfl
            · exact Nat.lt_succ_of_lt (con.seqs command old)
            · exact Nat.lt_succ_self _
          · intro other before different present
            exact keeps.sound (post_first con.toRegistered found progress.known held different) (con.sound other before present)
        refine but.wait found stage distinct (keeps.latest latest) computed
          { state with wait := .awaiting w.sends none } rfl rfl rfl rfl rfl ?_
        intro transfers
        refine ⟨progress.known, ⟨Nat.lt_succ_self _, ?_⟩, ?_, fun _ => trivial⟩
        · intro command member same
          rcases mem_snoc.mp member with old | rfl
          · exact absurd same (Nat.ne_of_lt (con.seqs command old))
          · rfl
        · intro sure
          obtain ⟨alone, first⟩ := progress.first sure
          rw [waits] at first
          refine ⟨?_, ?_, ?_, first.2⟩
          · intro other after different present
            rw [setCall_other different] at present
            exact alone other after different present
          · rw [setCall_ledger, post_ledger]
            simp [Scripts.Ledger.send, first.1]
          · exact mem_append_right _ mem_cons_self
      · split
        · rename_i unsure
          refine (con.but c).wait found stage distinct latest computed
            { state with wait := .look state.batch.writes [] } rfl rfl rfl rfl rfl ?_
          intro _
          exact ⟨progress.known, trivial, fun sure => absurd unsure (by simp [show state.ambiguous = false from sure]),
            fun _ => look_again state.batch⟩
        · rename_i sure
          obtain ⟨alone, first⟩ := progress.first (by simpa using sure)
          rw [waits] at first
          refine (con.but c).setCall (transfers_none rfl) ⟨?_, trivial⟩
          exact closes_tried rfl latest progress.known first.2 (.inr ⟨alone, first.1⟩)
    · exact con
  · exact con

end sending

section preparing
variable {w : World κ T} {c : Nat} {call : Call κ T}

/-- The world that knows one more batch. -/
def World.know (w : World κ T) (writes : List (PendingWrite κ)) : World κ T :=
  { w with batches := w.batches ++ [⟨w.batches.length, writes⟩] }

theorem know_keeps (writes : List (PendingWrite κ)) : Keeps w (w.know writes) := by
  refine ⟨fun _ member => mem_append_left _ member, fun _ ran => ran, fun _ _ wrote => wrote,
    fun _ unexecuted _ => unexecuted, ?_, fun _ _ owns => owns⟩
  intro batch closed
  exact ⟨mem_append_left _ closed.known, closed.unexecuted,
    closed.barred.imp_right fun gone => ⟨gone.copies, gone.unheld⟩⟩

theorem Registered.below (reg : Registered cfg w) (known : batch ∈ w.batches) : batch.id < w.batches.length :=
  (List.getElem?_eq_some_iff.mp (reg.ids batch known)).1

theorem But.know (but : But cfg w c) (ready : Ready cfg w op random writes values)
    (fresh : ∀ i < op.tokenCount, (∀ j < i, newWriteToken (random j) ≠ newWriteToken (random i)) ∧
      ∀ batch ∈ w.batches, ∀ write ∈ batch.writes, write.token ≠ newWriteToken (random i)) :
    But cfg (w.know writes) c := by
  have foreign : ∀ write ∈ writes, write.next ≠ none → ∀ batch ∈ w.batches, ∀ other ∈ batch.writes,
      other.token ≠ write.token := by
    intro write member filled batch known other inside
    obtain ⟨p, found⟩ := getElem?_of_mem member
    obtain ⟨bound, token⟩ := (ready.tokens p write found).resolve_left filled
    rw [token]
    exact (fresh p bound).2 batch known other inside
  have own : ∀ write ∈ writes, ∀ other ∈ writes, write.next ≠ none → other.next ≠ none → write.token = other.token →
      write = other := by
    intro write member other second filled filled' same
    obtain ⟨p, found⟩ := getElem?_of_mem member
    obtain ⟨q, found'⟩ := getElem?_of_mem second
    obtain ⟨bound, token⟩ := (ready.tokens p write found).resolve_left filled
    obtain ⟨bound', token'⟩ := (ready.tokens q other found').resolve_left filled'
    rw [token, token'] at same
    rcases Nat.lt_trichotomy p q with less | rfl | more
    · exact absurd same ((fresh q bound').1 p less)
    · exact some.inj (found.symm.trans found')
    · exact absurd same.symm ((fresh p bound).1 q more)
  have lasting : Scripts.Lasting (w.know writes).ledger := by
    have registered := but.lasting.register (writes.map PendingWrite.toWrite) ?_ ?_ ?_
    · simpa [World.ledger, World.know, Batch.script] using registered
    · simpa [List.map_map, Function.comp_def] using ready.distinct
    · intro write member value base
      obtain ⟨pending, inside, rfl⟩ := mem_map.mp member
      exact ready.seen pending inside value base
    · intro write member value next script known other second same
      obtain ⟨pending, inside, rfl⟩ := mem_map.mp member
      obtain ⟨batch, present, rfl⟩ := batch_of_script known
      obtain ⟨waiting, among, rfl⟩ := mem_map.mp second
      have mine := (ready.prepared pending inside).tokensOf_next next
      rw [(but.prepared batch present waiting among).tokensOf_next same] at mine
      exact foreign pending inside (by simp [next]) batch present waiting among (cons.inj mine).1
  refine { but with lasting, ids := ?_, prepared := ?_, tokens := ?_, pool := ?_, log := ?_, others := ?_ }
  · intro batch member
    rcases mem_snoc.mp member with old | rfl
    · simp only [World.know]
      rw [getElem?_append_left (but.below old)]
      exact but.ids batch old
    · simp [World.know]
  · exact forall_mem_append.mpr ⟨but.prepared, forall_mem_singleton.mpr ready.prepared⟩
  · intro batch member other second write inside waiting among filled filled' same
    rcases mem_snoc.mp member with old | rfl <;> rcases mem_snoc.mp second with older | rfl
    · exact but.tokens batch old other older write inside waiting among filled filled' same
    · exact absurd same (foreign waiting among filled' batch old write inside)
    · exact absurd same.symm (foreign write inside filled other older waiting among)
    · exact ⟨rfl, own write inside waiting among filled filled' same⟩
  · intro command member
    exact mem_append_left _ (but.pool command member)
  · intro effect member
    obtain ⟨known, rest⟩ := but.log effect member
    exact ⟨mem_append_left _ known, rest⟩
  · intro other before different present
    exact (know_keeps writes).sound (fun _ _ _ alone first => ⟨alone, first⟩) (but.others other before different present)

theorem Consistent.unused (con : Consistent cfg w) (batch : Batch κ) (next : batch.id = w.batches.length) :
    batch ∉ w.batches ∧ w.ledger.copies batch.script = 0 ∧ ¬ Executed w batch := by
  have foreign : batch.script ∉ w.ledger.registry := by
    intro known
    obtain ⟨other, member, same⟩ := batch_of_script known
    exact absurd ((congrArg Scripts.Script.id same).trans next) (Nat.ne_of_lt (con.below member))
  refine ⟨fun member => absurd next (Nat.ne_of_lt (con.below member)), ?_,
    fun ran => foreign (con.lasting.known _ (.inr ran))⟩
  by_contra some
  exact foreign (con.lasting.known _ (.inl (Nat.pos_of_ne_zero some)))

theorem prepare_consistent (con : Consistent cfg w) (found : w.calls c = some call)
    (fresh : DistinctTokens w (.prepare c random)) :
    Consistent cfg (w.prepare cfg c call random) := by
  have sound := con.sound c call found
  simp only [World.prepare]
  split
  · rename_i raws stage
    obtain ⟨distinct, closed, read, keys, seen⟩ := sound.reading stage
    rw [append_nil] at keys
    subst keys
    split
    · rename_i report decided
      obtain ⟨fits, ends⟩ := decide_report decided
      have free : (call.finish report).stage.held = none := by
        rcases ends with ⟨rfl, -⟩ | rfl | rfl | rfl | ⟨current, rfl⟩ <;> rfl
      have shut : ∀ batch ∈ call.tried, Closed (w.setCall c (call.finish report)) batch :=
        fun batch member => (closed batch member).setCall (transfers_none free)
      refine (con.but c).setCall (transfers_none free) ⟨?_, fits⟩
      rcases ends with ⟨rfl, absent⟩ | rfl | rfl | rfl | ⟨current, rfl⟩
      · exact .inr ⟨absent, shut⟩
      · exact shut
      · exact shut
      · exact shut
      · exact shut
    · rename_i writes values decided
      simp only [DistinctTokens, found] at fresh
      have ready := decide_ready con.toRegistered distinct seen decided
      obtain ⟨unknown, unsent, unexecuted⟩ := con.unused ⟨w.batches.length, writes⟩ rfl
      -- the call takes the new batch up before the records know it, so that no other call could hold it
      have transfers : Transfers w c (call.settle ⟨w.batches.length, writes⟩ values false) := by
        intro batch held member
        cases held
        exact absurd member unknown
      have keeps := setCall_keeps transfers
      have still : Ready cfg (w.setCall c (call.settle ⟨w.batches.length, writes⟩ values false)) call.op random writes
          values := { ready with seen := fun write member => keeps.seen (ready.seen write member) }
      have after := ((con.but c).set transfers).know still fresh
      refine after.complete setCall_self ⟨distinct, ⟨call.tried, rfl, fun batch member => ?_⟩,
        ⟨?_, trivial, fun _ => ⟨?_, unsent, unexecuted⟩, fun open_ => by contradiction⟩, ready.computed _⟩
      · exact (know_keeps writes).closed batch (keeps.closed batch (closed batch member))
      · exact mem_append_right _ mem_cons_self
      · intro other before different present held
        have earlier : w.calls other = some before := by
          rw [← present]
          exact (setCall_other different).symm
        exact unknown ((con.sound other before earlier).known_of_held held)
  · exact con

end preparing

end Roost.Versionstore
