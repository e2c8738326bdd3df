import RoostCore.Versionstore.Execution

/-! What the reports of the store are worth: a write that is reported took effect exactly
once, one that is refused never does, and everything else is reported as unknown. -/
namespace Roost.Versionstore
open List Option
open Go (Bytes)
open World

variable {κ T : Type} [DecidableEq κ] {cfg : Config T} {w : World κ T}

section effects
variable {call : Call κ T} {batch : Batch κ}

theorem executed_of_log (member : effect ∈ w.log) : Executed w effect.batch :=
  mem_map.mpr ⟨effect, member, rfl⟩

theorem effects_unique (reg : Registered cfg w) {effects : List (Effect κ)} (sub : effects.Sublist w.log)
    (same : ∀ effect ∈ effects, effect.batch = batch) : effects.length ≤ 1 := by
  have distinct : (effects.map fun effect => effect.batch.script).Nodup := (sub.map _).nodup reg.lasting.once
  match effects, same, distinct with
  | [], _, _ => exact Nat.zero_le 1
  | [_], _, _ => exact Nat.le_refl 1
  | first :: second :: rest, same, distinct =>
    have equal : first.batch.script = second.batch.script := by
      rw [same first (by simp), same second (by simp)]
    simp [equal] at distinct

theorem effects_closed (closed : ∀ other ∈ call.tried, Closed w other) : w.effects call = [] := by
  apply filter_eq_nil_iff.mpr
  intro effect member tried
  exact (closed effect.batch (by simpa using tried)).unexecuted (executed_of_log member)

theorem effects_latest (latest : Latest w call batch) : ∀ effect ∈ w.effects call, effect.batch = batch := by
  obtain ⟨earlier, list, closed⟩ := latest
  intro effect member
  obtain ⟨logged, tried⟩ := mem_filter.mp member
  rw [list] at tried
  rcases mem_cons.mp (by simpa using tried : effect.batch ∈ batch :: earlier) with here | old
  · exact here
  · exact absurd (executed_of_log logged) (closed effect.batch old).unexecuted

theorem effects_le_one (reg : Registered cfg w) (latest : Latest w call batch) : (w.effects call).length ≤ 1 :=
  effects_unique reg filter_sublist (effects_latest latest)

/-- A batch that took effect is the one effect of its call. -/
theorem effects_executed (reg : Registered cfg w) (latest : Latest w call batch) (known : batch ∈ w.batches)
    (executed : Executed w batch) : ∃ effect, w.effects call = [effect] ∧ effect ∈ w.log ∧ effect.batch = batch := by
  obtain ⟨effect, logged, same⟩ := mem_map.mp executed
  have equal := reg.script_inj (reg.log effect logged).1 known same
  have member : effect ∈ w.effects call := by
    refine mem_filter.mpr ⟨logged, ?_⟩
    obtain ⟨earlier, list, -⟩ := latest
    simp [list, equal]
  have short := effects_le_one reg latest
  generalize w.effects call = effects at member short
  match effects, member, short with
  | [only], member, _ =>
    obtain rfl := mem_singleton.mp member
    exact ⟨effect, rfl, logged, equal⟩

end effects

/-- How the value of a key may follow another: a new key starts at version 1, and a value is
replaced by the next version, until the 64-bit counter is spent. -/
def Follows : Option Bytes → Option Bytes → Prop
  | none, some raw => ∃ header, parseEnvelope raw = .ok header ∧ header.version = 1
  | some raw, some next => next = raw ∨ ∃ header, parseEnvelope raw = .ok header ∧
      (header.version + 1 < 2 ^ 64 → ∃ after, parseEnvelope next = .ok after ∧ after.version = header.version + 1)
  | _, none => True

/-- What a step does to the store, and what is recorded of it. -/
inductive Changes (w v : World κ T) : Prop
  | nothing (store : v.store = w.store) (log : v.log = w.log)
  | effect (e : Effect κ) (log : v.log = w.log ++ [e]) (known : e.batch ∈ w.batches)
      (before : e.before = e.batch.writes.map fun write => w.store write.key)
      (after : e.after = e.batch.writes.map fun write => v.store write.key)
      (each : ∀ write ∈ e.batch.writes, w.store write.key = write.base ∧ v.store write.key = write.next)
      (others : ∀ k, (∀ write ∈ e.batch.writes, write.key ≠ k) → v.store k = w.store k)

omit [DecidableEq κ] in
theorem deliver_store (command : Command κ) (result : Bool) :
    (w.deliver command result).store = w.store ∧ (w.deliver command result).log = w.log := by
  simp only [deliver]
  repeat' split
  all_goals exact ⟨rfl, rfl⟩

theorem execute_changes (reg : Registered cfg w) (index : Nat) : Changes w (w.execute index) := by
  rw [execute_eq]
  split
  · exact .nothing rfl rfl
  rename_i command found
  obtain ⟨store, log⟩ := deliver_store (w := w.ran index command.batch) command
    (Decidable.decide (command.batch.script.Passes w.store))
  by_cases passes : command.batch.script.Passes w.store
  · have known := reg.pool command (mem_of_getElem? found)
    have stored : (w.ran index command.batch).store = command.batch.script.apply w.store := by
      rw [ran, if_pos passes]
    have logged : (w.ran index command.batch).log = w.log ++ [⟨command.batch,
        command.batch.writes.map (fun write => w.store write.key),
        command.batch.writes.map (fun write => command.batch.script.apply w.store write.key)⟩] := by
      rw [ran, if_pos passes]
    refine .effect _ (log.trans logged) known rfl ?_ ?_ ?_
    · rw [store, stored]
    · intro write member
      have inside : write.toWrite ∈ command.batch.script.writes := mem_map.mpr ⟨write, member, rfl⟩
      rw [store, stored]
      exact ⟨passes write.toWrite inside, reg.lasting.apply_mem (script_known known) inside⟩
    · intro k untouched
      rw [store, stored]
      apply Scripts.Lasting.apply_other
      intro write member
      obtain ⟨pending, inside, rfl⟩ := mem_map.mp member
      exact untouched pending inside
  · refine .nothing ?_ ?_
    · rw [store, ran, if_neg passes]
    · rw [log, ran, if_neg passes]

theorem step_changes (reg : Registered cfg w) (input : Input κ T) : Changes w (w.step cfg input) := by
  have acts : ∀ (c : Nat) (step : Call κ T → World κ T),
      (∀ call, (step call).store = w.store ∧ (step call).log = w.log) → Changes w (w.act c step) := by
    intro c step same
    simp only [act]
    split
    · exact .nothing rfl rfl
    · exact .nothing (same _).1 (same _).2
  cases input with
  | start c op resume =>
    simp only [step]
    split <;> exact .nothing rfl rfl
  | execute index => exact execute_changes reg index
  | read | prepare | send | receive | lose | look =>
    refine acts _ _ fun call => ?_
    simp only [World.read, World.prepare, World.send, World.receive, World.lose, World.look]
    repeat' split
    all_goals exact ⟨rfl, rfl⟩

omit [DecidableEq κ] in
theorem Prepared.parse_next (prepared : Prepared cfg write) (next : write.next = some raw)
    (counted : write.version ≠ 0) :
    ∃ payload, parseEnvelope raw = .ok ⟨write.version, write.token :: write.prior.take (cfg.history - 1), payload⟩ ∧
      payloadOf raw = payload := by
  have shape := prepared.next
  rw [next] at shape
  obtain ⟨plain, payload, rfl⟩ := shape
  refine ⟨payload, ?_, payloadOf_build plain prepared.priors⟩
  have version := prepared.version
  generalize based : write.base = base at version
  cases base with
  | none =>
    refine parseEnvelope_build plain prepared.priors (Nat.pos_of_ne_zero counted) ?_ ?_
    · rw [version.2]
      decide
    · simpa [PendingWrite.prior, based] using Nat.pos_of_ne_zero counted
  | some below =>
    obtain ⟨header, parsed, number⟩ := version
    rw [if_neg (by simp [next])] at number
    obtain ⟨tokens, -, -, -, -, enough, -⟩ := parseEnvelope_ok parsed
    refine parseEnvelope_build plain prepared.priors (Nat.pos_of_ne_zero counted) ?_ ?_
    · rw [number]
      exact Nat.mod_lt _ (by decide)
    · have prior : write.prior = header.tokens := by simp [PendingWrite.prior, based, tokens]
      rw [prior, length_take]
      have top := (parseEnvelope_ok parsed).2.2.2.2.1
      have next : write.version = header.version + 1 := by
        rw [number]
        by_cases last : header.version + 1 = 2 ^ 64
        · rw [last, Nat.mod_self] at number
          exact absurd number counted
        · exact Nat.mod_eq_of_lt (by omega)
      omega

theorem step_follows (con : Consistent cfg w) (input : Input κ T) (k : κ) :
    Follows (w.store k) ((w.step cfg input).store k) := by
  have same : (w.step cfg input).store k = w.store k → Follows (w.store k) ((w.step cfg input).store k) := by
    intro equal
    rw [equal]
    cases w.store k with
    | none => trivial
    | some raw => exact .inl rfl
  cases step_changes con.toRegistered input with
  | nothing store log => exact same (by rw [store])
  | effect e log known before after each others =>
    by_cases touched : ∃ write ∈ e.batch.writes, write.key = k
    · obtain ⟨write, member, rfl⟩ := touched
      obtain ⟨held, holds⟩ := each write member
      rw [held, holds]
      have prepared := con.prepared e.batch known write member
      have version := prepared.version
      generalize based : write.base = base at version
      generalize next : write.next = stored
      cases stored with
      | none => cases base <;> trivial
      | some raw =>
        cases base with
        | none =>
          have one : write.version = 1 := version.2
          obtain ⟨payload, parsed, -⟩ := prepared.parse_next next (by omega)
          exact ⟨_, parsed, one⟩
        | some below =>
          obtain ⟨header, parsed, number⟩ := version
          rw [if_neg (by simp [next])] at number
          refine .inr ⟨header, parsed, fun room => ?_⟩
          rw [Nat.mod_eq_of_lt room] at number
          obtain ⟨payload, again, -⟩ := prepared.parse_next next (by omega)
          exact ⟨_, again, number⟩
    · refine same (others k ?_)
      intro write member here
      exact touched ⟨write, member, here⟩

/-- The bytes are the encoded value under its version. Version 0 is what the 64-bit counter
comes to after its last value. -/
def Stored (cfg : Config T) (raw : Option Bytes) (result : Versioned T) : Prop :=
  ∃ bytes payload, raw = some bytes ∧ cfg.encode result.value = some payload ∧ payloadOf bytes = payload ∧
    (result.version ≠ 0 → ∃ tokens, parseEnvelope bytes = .ok ⟨result.version, tokens, payload⟩)

/-- One execution has written every key, as `mutate` of what the keys held just before. -/
structure Updated (cfg : Config T) (keys : List κ) (mutate : List T → List Bool → Decision (List T))
    (results : List (Versioned T)) (effect : Effect κ) : Prop where
  written : effect.batch.writes.map (fun write => write.key) = keys
  mutated : ∃ currents : List (Versioned T), effect.before.map (decodeRaw cfg) = currents.map some ∧
    mutate (currents.map Versioned.value) (effect.before.map isSome) = .save (results.map Versioned.value)
  stored : List.Forall₂ (Stored cfg) effect.after results

/-- One execution has created the key. -/
structure Created (cfg : Config T) (key : κ) (result : Versioned T) (effect : Effect κ) : Prop where
  written : effect.batch.writes.map (fun write => write.key) = [key]
  absent : effect.before = [none]
  stored : List.Forall₂ (Stored cfg) effect.after [result]

/-- One execution has deleted the key, at the version that the caller held. -/
structure Deleted (key : κ) (expect : Nat) (effect : Effect κ) : Prop where
  written : effect.batch.writes.map (fun write => write.key) = [key]
  held : ∃ raw header, effect.before = [some raw] ∧ parseEnvelope raw = .ok header ∧ header.version = expect
  gone : effect.after = [none]

/-- What a report says about the effects of its call, now and for ever. -/
def Reported (cfg : Config T) (w : World κ T) (call : Call κ T) : Report κ T → Prop
  | .applied results => ∃ keys mutate resumable effect, call.op = .loop keys mutate resumable ∧
      w.effects call = [effect] ∧ Updated cfg keys mutate results effect
  | .created result => ∃ key value effect, call.op = .create key value ∧ w.effects call = [effect] ∧
      Created cfg key result effect
  | .deleted => ∃ key expect accepts, call.op = .delete key expect accepts ∧
      (expect ≠ 0 → ∃ effect, w.effects call = [effect] ∧ Deleted key expect effect) ∧
      (expect = 0 → w.effects call = [])
  | .unknown _ => True
  | .declined _ | .notCreated | .mismatch | .conflict | .tokenMismatch | .failed => w.effects call = []

variable {values : List T}

omit [DecidableEq κ] in
theorem stored_results {writes : List (PendingWrite κ)}
    (carries : List.Forall₂ (Carries cfg) writes values) (prepared : ∀ write ∈ writes, Prepared cfg write) :
    (zipWith (fun value write => (⟨value, write.version⟩ : Versioned T)) values writes).map Versioned.value = values ∧
    List.Forall₂ (Stored cfg) (writes.map fun write => write.next)
      (zipWith (fun value write => ⟨value, write.version⟩) values writes) := by
  induction carries with
  | nil => exact ⟨rfl, .nil⟩
  | cons here _ ih =>
    obtain ⟨first, rest⟩ := forall_mem_cons.mp prepared
    obtain ⟨values, stored⟩ := ih rest
    obtain ⟨raw, payload, next, encoded, holds⟩ := here
    refine ⟨by rw [zipWith_cons_cons, map_cons, values], .cons ⟨raw, payload, next, encoded, holds, ?_⟩ stored⟩
    intro counted
    obtain ⟨again, parsed, same⟩ := first.parse_next next counted
    exact ⟨_, by rw [parsed, ← same, holds]⟩

variable {call : Call κ T} {batch : Batch κ}

theorem Succeeded.effect (con : Consistent cfg w) (done : Succeeded cfg w call batch values) :
    ∃ effect, w.effects call = [effect] ∧ effect.batch = batch ∧
      effect.before = batch.writes.map (fun write => write.base) ∧
      effect.after = batch.writes.map (fun write => write.next) := by
  obtain ⟨latest, known, executed, -⟩ := done
  obtain ⟨effect, only, logged, rfl⟩ := effects_executed con.toRegistered latest known executed
  obtain ⟨-, before, after⟩ := con.log effect logged
  exact ⟨effect, only, rfl, before, after⟩

theorem updated_of_succeeded {keys : List κ} (con : Consistent cfg w) (done : Succeeded cfg w call batch values)
    (op : call.op = .loop keys mutate resumable) :
    ∃ effect, w.effects call = [effect] ∧ Updated cfg keys mutate
      (zipWith (fun value write => ⟨value, write.version⟩) values batch.writes) effect := by
  obtain ⟨effect, only, rfl, before, after⟩ := done.effect con
  obtain ⟨-, known, -, computed⟩ := done
  rw [op] at computed
  obtain ⟨written, ⟨currents, decoded, saves⟩, carries⟩ := computed
  obtain ⟨same, stored⟩ := stored_results carries (con.prepared effect.batch known)
  refine ⟨effect, only, written, ⟨currents, ?_, ?_⟩, ?_⟩
  · rw [before, List.map_map]
    exact decoded
  · rw [before, List.map_map, same]
    exact saves
  · rw [after]
    exact stored

theorem created_of_succeeded (con : Consistent cfg w) (done : Succeeded cfg w call batch values)
    (op : call.op = .create key value) :
    ∃ effect, w.effects call = [effect] ∧ Created cfg key ⟨value, 1⟩ effect := by
  obtain ⟨effect, only, rfl, before, after⟩ := done.effect con
  obtain ⟨-, known, -, computed⟩ := done
  rw [op] at computed
  obtain ⟨write, single, sameKey, base, raw, payload, next, encoded, holds⟩ := computed
  have prepared := con.prepared effect.batch known write (by simp [single])
  have version := prepared.version
  rw [base] at version
  refine ⟨effect, only, by simp [single, sameKey], by simp [before, single, base], ?_⟩
  rw [after, single]
  refine .cons ⟨raw, payload, next, encoded, holds, fun _ => ?_⟩ .nil
  obtain ⟨again, parsed, same⟩ := prepared.parse_next next (by omega)
  exact ⟨_, by rw [parsed, ← same, holds, version.2]⟩

theorem deleted_of_succeeded (con : Consistent cfg w) (done : Succeeded cfg w call batch values)
    (op : call.op = .delete key expect accepts) :
    ∃ effect, w.effects call = [effect] ∧ Deleted key expect effect := by
  obtain ⟨effect, only, rfl, before, after⟩ := done.effect con
  obtain ⟨-, known, -, computed⟩ := done
  rw [op] at computed
  obtain ⟨write, single, sameKey, next, held⟩ := computed
  have version := (con.prepared effect.batch known write (by simp [single])).version
  generalize based : write.base = base at version
  cases base with
  | none => exact absurd next version.1
  | some raw =>
    obtain ⟨header, parsed, number⟩ := version
    rw [if_pos next] at number
    exact ⟨effect, only, by simp [single, sameKey], ⟨raw, header, by simp [before, single, based], parsed, by omega⟩,
      by simp [after, single, next]⟩

/-- At every stage all that a call has tried is closed, or all but one batch that it computed. -/
theorem Sound.closed_or_latest (sound : Sound cfg w c call) : (∀ batch ∈ call.tried, Closed w batch) ∨
    ∃ batch values, Latest w call batch ∧ Computed cfg call.op batch values := by
  simp only [Sound] at sound
  split at sound
  · exact .inl sound.2.1
  · exact .inr ⟨_, _, sound.2.1, sound.2.2.2⟩
  rename_i report _
  obtain ⟨final, -⟩ := sound
  cases report with
  | applied results =>
    obtain ⟨batch, values, done, -⟩ := final
    exact .inr ⟨batch, values, done.1, done.2.2.2⟩
  | created result =>
    obtain ⟨batch, values, done⟩ := final
    exact .inr ⟨batch, values, done.1, done.2.2.2⟩
  | deleted =>
    rcases final with ⟨batch, values, done⟩ | ⟨-, closed⟩
    · exact .inr ⟨batch, values, done.1, done.2.2.2⟩
    · exact .inl closed
  | unknown batch =>
    obtain ⟨values, computed⟩ := final.2.2
    exact .inr ⟨batch, values, final.1, computed⟩
  | declined | notCreated | mismatch | conflict | tokenMismatch | failed => exact .inl final

theorem Sound.effects_le_one (con : Consistent cfg w) (sound : Sound cfg w c call) :
    (w.effects call).length ≤ 1 := by
  obtain closed | ⟨batch, values, latest, -⟩ := sound.closed_or_latest
  · rw [effects_closed closed]
    exact Nat.zero_le 1
  · exact Versionstore.effects_le_one con.toRegistered latest

theorem Sound.reported (con : Consistent cfg w) (sound : Sound cfg w c call)
    (stage : call.stage = .done report) : Reported cfg w call report := by
  simp only [Sound, stage] at sound
  obtain ⟨final, fits⟩ := sound
  generalize operation : call.op = op at fits
  cases report with
  | applied results =>
    obtain ⟨batch, values, done, rfl⟩ := final
    cases op with
    | loop keys mutate resumable =>
      obtain ⟨effect, only, updated⟩ := updated_of_succeeded con done operation
      exact ⟨keys, mutate, resumable, effect, operation, only, updated⟩
    | create | delete => contradiction
  | created result =>
    obtain ⟨batch, values, done⟩ := final
    cases op with
    | create key value =>
      obtain rfl : result = ⟨value, 1⟩ := fits
      obtain ⟨effect, only, created⟩ := created_of_succeeded con done operation
      exact ⟨key, value, effect, operation, only, created⟩
    | loop | delete => contradiction
  | deleted =>
    cases op with
    | delete key expect accepts =>
      refine ⟨key, expect, accepts, operation, ?_⟩
      rcases final with ⟨batch, values, done⟩ | ⟨⟨other, accepts', absent⟩, closed⟩
      · obtain ⟨effect, only, deleted⟩ := deleted_of_succeeded con done operation
        obtain ⟨raw, header, -, parsed, version⟩ := deleted.held
        have positive := (parseEnvelope_ok parsed).2.2.2.1
        exact ⟨fun _ => ⟨effect, only, deleted⟩, fun zero => by omega⟩
      · rw [operation] at absent
        have zero := (Operation.delete.inj absent).2.1
        exact ⟨(absurd zero ·), fun _ => effects_closed closed⟩
    | loop | create => contradiction
  | unknown batch => trivial
  | declined | notCreated | mismatch | conflict | tokenMismatch | failed => exact effects_closed final

theorem Sound.effects_keys {keys : List κ} (sound : Sound cfg w c call) (op : call.op = .loop keys mutate resumable) :
    ∀ effect ∈ w.effects call, effect.batch.writes.map (fun write => write.key) = keys := by
  obtain closed | ⟨batch, values, latest, computed⟩ := sound.closed_or_latest
  · rw [effects_closed closed]
    nofun
  · intro effect member
    rw [op] at computed
    rw [effects_latest latest effect member]
    exact computed.1

/-- The call has taken up the write that another one left unknown. -/
def TakesUp (call next : Call κ T) : Prop :=
  ∃ batch, call.stage = .done (.unknown batch) ∧ batch ∈ next.tried

/-- What a call has done by a write that it left unknown, the last of those that took it up
has done too. -/
theorem effects_of_last (con : Consistent cfg w) {chain : List (Call κ T)}
    (calls : ∀ call ∈ chain, ∃ c, w.calls c = some call) (resumed : chain.IsChain TakesUp)
    (final : chain.getLast? = some last) :
    ∀ call ∈ chain, ∀ effect ∈ w.effects call, effect ∈ w.effects last := by
  induction chain with
  | nil => contradiction
  | cons first rest ih =>
    intro call member effect done
    cases rest with
    | nil =>
      obtain rfl := mem_singleton.mp member
      cases final
      exact done
    | cons next more =>
      obtain ⟨⟨batch, unknown, tried⟩, resumed⟩ := isChain_cons_cons.mp resumed
      have later := ih (fun call inside => calls call (mem_cons_of_mem _ inside)) resumed
        (by rwa [getLast?_cons_cons] at final)
      rcases mem_cons.mp member with rfl | inside
      · refine later next mem_cons_self effect ?_
        obtain ⟨c, found⟩ := calls _ mem_cons_self
        have sound := con.sound c _ found
        simp only [Sound, unknown] at sound
        have same := effects_latest sound.1.1 effect done
        exact mem_filter.mpr ⟨(mem_filter.mp done).1, by simpa [same] using tried⟩
      · exact later call inside effect done

theorem chain_effects_le_one (con : Consistent cfg w) {chain : List (Call κ T)}
    (calls : ∀ call ∈ chain, ∃ c, w.calls c = some call) (resumed : chain.IsChain TakesUp) :
    (w.log.filter fun effect => chain.any fun call => effect.batch ∈ call.tried).length ≤ 1 := by
  cases final : chain.getLast? with
  | none =>
    rw [getLast?_eq_none_iff.mp final]
    simp
  | some last =>
    have known := mem_of_getLast? final
    have same : (w.log.filter fun effect => chain.any fun call => effect.batch ∈ call.tried) =
        w.effects last := by
      refine filter_congr fun effect logged => Bool.eq_iff_iff.mpr ?_
      rw [List.any_eq_true]
      refine ⟨fun ⟨call, member, tried⟩ => ?_, fun tried => ⟨last, known, tried⟩⟩
      exact (mem_filter.mp (effects_of_last con calls resumed final call member effect
        (mem_filter.mpr ⟨logged, tried⟩))).2
    obtain ⟨c, found⟩ := calls last known
    rw [same]
    exact (con.sound c last found).effects_le_one con

/-- Writes of the store under lost replies, for any number of clients. A call takes effect
at most once, its resends and the write it has resumed included, and so do the calls of a
chain, each of which has taken up the write that the one before left unknown. One that
reports applied,
created or deleted has taken effect exactly once, at the version it reports and, for an
update, as `mutate` of the value just before; one that reports a refusal never takes effect,
whatever commands are still on their way; what remains is reported as unknown. The versions
of a key are consecutive between deletions, and every envelope is read back as it was built,
both up to the end of the 64-bit counter. A delete that holds version 0 finds an absent key
as it expects, and reports success without an effect. -/
theorem versioned_writes_exactly_once (cfg : Config T) (inputs : List (Input κ T))
    (distinct : Along (step cfg) DistinctTokens empty inputs) :
    let w := run (step cfg) empty inputs
    (∀ c call, w.calls c = some call → (w.effects call).length ≤ 1 ∧
      ∀ report, call.stage = .done report → Reported cfg w call report) ∧
    (∀ chain : List (Call κ T), (∀ call ∈ chain, ∃ c, w.calls c = some call) → chain.IsChain TakesUp →
      (w.log.filter fun effect => chain.any fun call => effect.batch ∈ call.tried).length ≤ 1) ∧
    (∀ c call key accepts random, w.calls c = some call → call.op = .delete key 0 accepts →
      call.stage = .reading [] [none] →
      (w.step cfg (.prepare c random)).calls c = some (call.finish .deleted)) ∧
    (∀ input, Changes w (w.step cfg input)) ∧
    (∀ input k, Follows (w.store k) ((w.step cfg input).store k)) ∧
    ∀ batch ∈ w.batches, ∀ write ∈ batch.writes, ∀ raw, write.next = some raw → write.version ≠ 0 →
      ∃ payload, raw = buildEnvelope payload write.version write.token write.prior cfg.history ∧
        parseEnvelope raw = .ok ⟨write.version, write.token :: write.prior.take (cfg.history - 1), payload⟩ := by
  intro w
  have con : Consistent cfg w := run_consistent distinct
  refine ⟨?_, fun chain calls resumed => chain_effects_le_one con calls resumed, ?_,
    fun input => step_changes con.toRegistered input, fun input k => step_follows con input k, ?_⟩
  · intro c call found
    have sound := con.sound c call found
    exact ⟨sound.effects_le_one con, fun report stage => sound.reported con stage⟩
  · intro c call key accepts random found op stage
    simp [World.step, act, found, World.prepare, stage, Versionstore.decide, op]
  · intro batch known write member raw next counted
    have prepared := con.prepared batch known write member
    have shape := prepared.next
    rw [next] at shape
    obtain ⟨plain, payload, same⟩ := shape
    obtain ⟨again, parsed, holds⟩ := prepared.parse_next next counted
    refine ⟨payload, same, ?_⟩
    rw [parsed, ← holds, same, payloadOf_build plain prepared.priors]

def numbers : Config Nat where
  encode := fun n => some [UInt8.ofNat n]
  decode := fun bytes => bytes.head?.map UInt8.toNat
  zero := 0
  maxAttempts := 2
  history := 2
  attempts_pos := by decide
  history_pos := by decide

/-- Call 0 creates key 1 and loses the reply; call 1 increments it, gives the first send up,
sends again, and both copies execute. -/
def lostReplies : List (Input Nat Nat) :=
  [.start 0 (.create 1 5) none, .prepare 0 id, .send 0 false, .execute 0, .lose 0, .look 0 false false,
    .look 0 false false, .start 1 (.update 1 fun value _ => .save (value + 1)) none, .read 1 false,
    .prepare 1 (· + 10), .send 1 false, .lose 1, .look 1 false false, .look 1 false false, .send 1 false, .execute 0,
    .execute 0, .receive 1, .look 1 false false, .look 1 false false]

theorem versioned_writes_after_lost_replies :
    let w := run (step numbers) empty lostReplies
    Along (step numbers) DistinctTokens empty lostReplies ∧
      (w.calls 0).map Call.stage = some (.done (.created ⟨5, 1⟩)) ∧
      ∃ call, w.calls 1 = some call ∧ call.stage = .done (.applied [⟨6, 2⟩]) ∧ (w.effects call).length = 1 := by
  intro w
  have distinct : Along (step numbers) DistinctTokens empty lostReplies := by decide +kernel
  have settled := versioned_writes_exactly_once numbers lostReplies distinct
  have applied : (w.calls 1).map Call.stage = some (.done (.applied [⟨6, 2⟩])) := by decide +kernel
  obtain ⟨call, found, stage⟩ := map_eq_some_iff.mp applied
  obtain ⟨keys, mutate, resumable, effect, -, only, -⟩ := (settled.1 1 call found).2 _ stage
  exact ⟨distinct, by decide +kernel, call, found, stage, by rw [only]; rfl⟩

/-- A delete that holds version 0 reports success on an absent key and has no effect. -/
theorem delete_of_absent_key_without_effect :
    let w := run (step numbers) empty [.start 0 (.delete 1 0 fun _ => true) none, .read 0 false, .prepare 0 id]
    ∃ call, w.calls 0 = some call ∧ call.stage = .done .deleted ∧ w.effects call = [] :=
  ⟨_, rfl, rfl, rfl⟩

/-- Multi-key updates under lost replies, among any other calls. One that reports applied
wrote all its keys in one execution, over the values that its last `mutate` saw; one that
reports a refusal wrote nothing and never will; the rest is reported as unknown; and what an
update writes, it writes to all its keys at once. -/
theorem update_all_or_nothing (cfg : Config T) (inputs : List (Input κ T))
    (distinct : Along (step cfg) DistinctTokens empty inputs) (c : Nat) (call : Call κ T) (keys : List κ)
    (mutate : List T → List Bool → Decision (List T))
    (found : (run (step cfg) empty inputs).calls c = some call) (op : call.op = .updateAll keys mutate) :
    let w := run (step cfg) empty inputs
    (w.effects call).length ≤ 1 ∧
    (∀ effect ∈ w.effects call, effect.batch.writes.map (fun write => write.key) = keys) ∧
    (∀ input, Changes w (w.step cfg input)) ∧
    ∀ report, call.stage = .done report →
      (∃ results effect, report = .applied results ∧ w.effects call = [effect] ∧
        Updated cfg keys mutate results effect) ∨
      ((∃ current, report = .declined current) ∨ report = .conflict ∨ report = .failed) ∧ w.effects call = [] ∨
      ∃ batch, report = .unknown batch := by
  intro w
  have con : Consistent cfg w := run_consistent distinct
  have sound := con.sound c call found
  refine ⟨sound.effects_le_one con, sound.effects_keys op, fun input => step_changes con.toRegistered input, ?_⟩
  intro report stage
  have reported := sound.reported con stage
  simp only [Sound, stage] at sound
  obtain ⟨-, fits⟩ := sound
  rw [op] at fits
  cases report with
  | applied results =>
    obtain ⟨keys', mutate', resumable, effect, same, only, updated⟩ := reported
    rw [op] at same
    obtain ⟨rfl, rfl, -⟩ := Operation.loop.inj same
    exact .inl ⟨results, effect, rfl, only, updated⟩
  | declined current => exact .inr (.inl ⟨.inl ⟨current, rfl⟩, reported⟩)
  | conflict => exact .inr (.inl ⟨.inr (.inl rfl), reported⟩)
  | failed => exact .inr (.inl ⟨.inr (.inr rfl), reported⟩)
  | unknown batch => exact .inr (.inr ⟨batch, rfl⟩)
  | tokenMismatch =>
    -- a call of `UpdateAll` resumes nothing
    rcases keys with _ | ⟨_, _ | _⟩ <;> contradiction
  | created | notCreated | deleted | mismatch => contradiction

/-- Key 1 is created; call 1 adds it up into key 2, which is absent, and loses the reply. -/
def lostTransfer : List (Input Nat Nat) :=
  [.start 0 (.create 1 5) none, .prepare 0 id, .send 0 false, .execute 0, .receive 0,
    .start 1 (.updateAll [1, 2] fun values _ => .save [0, values.sum]) none, .read 1 false, .read 1 false,
    .prepare 1 (· + 10), .send 1 false, .execute 0, .lose 1, .look 1 false false, .look 1 false false,
    .look 1 false false]

theorem update_all_after_lost_reply :
    let w := run (step numbers) empty lostTransfer
    ∃ call effect, w.calls 1 = some call ∧ call.stage = .done (.applied [⟨0, 2⟩, ⟨5, 1⟩]) ∧ w.effects call = [effect] ∧
      effect.batch.writes.map (fun write => write.key) = [1, 2] := by
  intro w
  have distinct : Along (step numbers) DistinctTokens empty lostTransfer := by decide +kernel
  have applied : (w.calls 1).map Call.stage = some (.done (.applied [⟨0, 2⟩, ⟨5, 1⟩])) := by decide +kernel
  obtain ⟨call, found, stage⟩ := map_eq_some_iff.mp applied
  have op : call.op = .updateAll [1, 2] fun values _ => .save [0, values.sum] := by
    have known : (w.calls 1).map Call.op = some (.updateAll [1, 2] fun values _ => .save [0, values.sum]) := rfl
    rw [found] at known
    exact some.inj known
  obtain ⟨-, keys, -, reports⟩ := update_all_or_nothing numbers lostTransfer distinct 1 call _ _ found op
  rcases reports _ stage with ⟨results, effect, -, only, updated⟩ | ⟨wrong, -⟩ | ⟨batch, wrong⟩
  · exact ⟨call, effect, found, stage, only, updated.written⟩
  · simp at wrong
  · contradiction

end Roost.Versionstore
