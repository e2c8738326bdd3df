import RoostCore.Versionstore.Judging

/-! Calls of the store under lost replies. A call knows about the write it settles what its
place in the protocol proves; the writes it has given up are closed for good. -/
namespace Roost.Versionstore
open Option
open Go (Bytes)

variable {κ T : Type} [DecidableEq κ] (cfg : Config T)

/-- The batch that a call may still send, or that a resumed call may send. -/
def Stage.held : Stage κ T → Option (Batch κ)
  | .settling state => some state.batch
  | .done (.unknown batch) => some batch
  | _ => none

/-- The keys that a call reads before it writes. -/
def Operation.keys : Operation κ T → List κ
  | .loop keys _ _ => keys
  | .create _ _ => []
  | .delete key _ _ => [key]

def Operation.tokenCount : Operation κ T → Nat
  | .loop keys _ _ => keys.length
  | .create _ _ => 1
  | .delete _ _ _ => 0

/-- Write tokens are pairwise distinct. -/
def DistinctTokens (w : World κ T) : Input κ T → Prop
  | .prepare c random =>
    match w.calls c with
    | none => True
    | some call => ∀ i < call.op.tokenCount, (∀ j < i, newWriteToken (random j) ≠ newWriteToken (random i)) ∧
        ∀ batch ∈ w.batches, ∀ write ∈ batch.writes, write.token ≠ newWriteToken (random i)
  | _ => True

instance (w : World κ T) (input : Input κ T) : Decidable (DistinctTokens w input) := by
  cases input <;> simp only [DistinctTokens] <;> first | infer_instance | (split <;> infer_instance)

/-- The bytes were stored under the key. -/
def Seen (w : World κ T) (key : κ) (raw : Option Bytes) : Prop :=
  ∀ value, raw = some value →
    ∃ script origin, w.ledger.Wrote script origin ∧ origin.key = key ∧ origin.next = some value

def Carries (write : PendingWrite κ) (value : T) : Prop :=
  ∃ raw payload, write.next = some raw ∧ cfg.encode value = some payload ∧ payloadOf raw = payload

/-- The batch does what the operation asks for, over the values it compares with. -/
def Computed (op : Operation κ T) (batch : Batch κ) (values : List T) : Prop :=
  match op with
  | .loop keys mutate _ =>
    batch.writes.map (fun write => write.key) = keys ∧
    (∃ currents : List (Versioned T), batch.writes.map (fun write => decodeRaw cfg write.base) = currents.map some ∧
      mutate (currents.map Versioned.value) (batch.writes.map fun write => write.base.isSome) = .save values) ∧
    List.Forall₂ (Carries cfg) batch.writes values
  | .create key value =>
    ∃ write, batch.writes = [write] ∧ write.key = key ∧ write.base = none ∧ Carries cfg write value
  | .delete key expect _ =>
    ∃ write, batch.writes = [write] ∧ write.key = key ∧ write.next = none ∧ write.version = expect

/-- No call can send the batch any more, and no copy is left. -/
structure Gone (w : World κ T) (batch : Batch κ) : Prop where
  copies : w.ledger.copies batch.script = 0
  unheld : ∀ c call, w.calls c = some call → call.stage.held ≠ some batch

/-- The batch has not taken effect and never will. -/
structure Closed (w : World κ T) (batch : Batch κ) : Prop where
  known : batch ∈ w.batches
  unexecuted : ¬ Executed w batch
  barred : Scripts.Superseded w.ledger batch.script ∨ Gone w batch

/-- No other call can send the batch. -/
def Alone (w : World κ T) (c : Nat) (batch : Batch κ) : Prop :=
  ∀ other call, other ≠ c → w.calls other = some call → call.stage.held ≠ some batch

def Told (w : World κ T) (batch : Batch κ) : Verdict → Prop
  | .unproven => True
  | .applied => Executed w batch
  | .lost => ¬ Executed w batch ∧ Scripts.Superseded w.ledger batch.script
  | .notRun => batch.script.Based

/-- The command with this number is a copy of the batch. -/
def Owns (w : World κ T) (seq : Nat) (batch : Batch κ) : Prop :=
  seq < w.sends ∧ ∀ command ∈ w.pool, command.seq = seq → command.batch = batch

/-- What a call knows about the first send of its batch. -/
def FirstSend (w : World κ T) (c : Nat) (batch : Batch κ) : Wait κ → Prop
  | .send => w.ledger.copies batch.script = 0 ∧ ¬ Executed w batch
  | .awaiting seq none => w.ledger.copies batch.script = 1 ∧ ⟨c, seq, batch⟩ ∈ w.pool ∧ ¬ Executed w batch
  | .awaiting _ (some result) => w.ledger.copies batch.script = 0 ∧ (Executed w batch ↔ result = true)
  | .look _ _ => False

/-- What a call knows about a batch of which a reply was lost. -/
def Doubted (w : World κ T) (batch : Batch κ) : Wait κ → Prop
  | .send => batch.script.Based
  | .awaiting _ none => True
  | .awaiting _ (some result) => result = true → Executed w batch
  | .look todo verdicts => (∀ write ∈ todo, write ∈ batch.writes) ∧ ∀ verdict ∈ verdicts, Told w batch verdict

/-- A call awaits a copy of its own batch. -/
def Awaits (w : World κ T) (batch : Batch κ) : Wait κ → Prop
  | .awaiting seq none => Owns w seq batch
  | _ => True

structure Progress (w : World κ T) (c : Nat) (state : Settling κ T) : Prop where
  known : state.batch ∈ w.batches
  awaits : Awaits w state.batch state.wait
  first : state.ambiguous = false → Alone w c state.batch ∧ FirstSend w c state.batch state.wait
  doubted : state.ambiguous = true → Doubted w state.batch state.wait

/-- The batches before the latest one are closed. -/
def Latest (w : World κ T) (call : Call κ T) (batch : Batch κ) : Prop :=
  ∃ earlier, call.tried = batch :: earlier ∧ ∀ other ∈ earlier, Closed w other

/-- The call has taken effect through its latest batch. -/
def Succeeded (w : World κ T) (call : Call κ T) (batch : Batch κ) (values : List T) : Prop :=
  Latest w call batch ∧ batch ∈ w.batches ∧ Executed w batch ∧ Computed cfg call.op batch values

def Final (w : World κ T) (call : Call κ T) : Report κ T → Prop
  | .applied results => ∃ batch values, Succeeded cfg w call batch values ∧
      results = List.zipWith (fun value write => ⟨value, write.version⟩) values batch.writes
  | .created _ => ∃ batch values, Succeeded cfg w call batch values
  | .deleted => (∃ batch values, Succeeded cfg w call batch values) ∨
      (∃ key accepts, call.op = .delete key 0 accepts) ∧ ∀ batch ∈ call.tried, Closed w batch
  | .unknown batch => Latest w call batch ∧ batch ∈ w.batches ∧ ∃ values, Computed cfg call.op batch values
  | _ => ∀ batch ∈ call.tried, Closed w batch

/-- The result belongs to the operation. -/
def Report.Fits : Report κ T → Operation κ T → Prop
  | .applied _, .loop _ _ _ => True
  | .declined _, .loop _ _ _ => True
  | .conflict, .loop _ _ _ => True
  | .created result, .create _ value => result = ⟨value, 1⟩
  | .notCreated, .create _ _ => True
  | .deleted, .delete _ _ _ => True
  | .mismatch, .delete _ _ _ => True
  | .unknown _, _ => True
  | .tokenMismatch, op => op.resumeKey.isSome
  | .failed, _ => True
  | _, _ => False

def Sound (w : World κ T) (c : Nat) (call : Call κ T) : Prop :=
  match call.stage with
  | .reading todo raws => call.op.keys.Nodup ∧ (∀ batch ∈ call.tried, Closed w batch) ∧
      ∃ read, call.op.keys = read ++ todo ∧ List.Forall₂ (Seen w) read raws
  | .settling state => call.op.keys.Nodup ∧ Latest w call state.batch ∧ Progress w c state ∧
      Computed cfg call.op state.batch state.values
  | .done report => Final cfg w call report ∧ report.Fits call.op

/-- The records and the pool, and every call but `c`. -/
structure But (w : World κ T) (c : Nat) : Prop extends Registered cfg w where
  seqs : ∀ command ∈ w.pool, command.seq < w.sends
  others : ∀ other call, other ≠ c → w.calls other = some call → Sound cfg w other call

structure Consistent (w : World κ T) : Prop extends Registered cfg w where
  seqs : ∀ command ∈ w.pool, command.seq < w.sends
  sound : ∀ c call, w.calls c = some call → Sound cfg w c call

variable {cfg}

theorem Consistent.but {w : World κ T} (con : Consistent cfg w) (c : Nat) : But cfg w c :=
  { con with others := fun other call _ found => con.sound other call found }

/-- The new state of call `c` holds no batch, a new one, its own one, or one of an open call. -/
def Transfers (w : World κ T) (c : Nat) (call : Call κ T) : Prop :=
  ∀ batch, call.stage.held = some batch → batch ∈ w.batches → ∃ holder before, w.calls holder = some before ∧
    before.stage.held = some batch ∧ (holder = c ∨ before.stage = .done (.unknown batch))

section frame
variable {w : World κ T} {c : Nat} {call : Call κ T}

@[simp] theorem setCall_ledger : (w.setCall c call).ledger = w.ledger := rfl
omit [DecidableEq κ] in
@[simp] theorem setCall_self : (w.setCall c call).calls c = some call := Function.update_self ..

omit [DecidableEq κ] in
theorem setCall_other (different : other ≠ c) : (w.setCall c call).calls other = w.calls other :=
  Function.update_of_ne different ..

theorem Gone.setCall (gone : Gone w batch) (known : batch ∈ w.batches)
    (transfers : Transfers w c call) : Gone (w.setCall c call) batch := by
  refine ⟨gone.copies, ?_⟩
  intro other after found held
  by_cases here : other = c
  · subst here
    rw [setCall_self] at found
    cases found
    obtain ⟨holder, before, present, holds, -⟩ := transfers batch held known
    exact gone.unheld holder before present holds
  · rw [setCall_other here] at found
    exact gone.unheld other after found held

theorem Closed.setCall (closed : Closed w batch) (transfers : Transfers w c call) :
    Closed (w.setCall c call) batch :=
  ⟨closed.known, closed.unexecuted, closed.barred.imp_right fun gone => gone.setCall closed.known transfers⟩

omit [DecidableEq κ] in
theorem Alone.setCall (alone : Alone w other batch) (different : other ≠ c)
    (known : batch ∈ w.batches)
    (settling : ∀ before, w.calls other = some before → before.stage ≠ .done (.unknown batch))
    (transfers : Transfers w c call) : Alone (w.setCall c call) other batch := by
  intro third after apart found held
  by_cases here : third = c
  · subst here
    rw [setCall_self] at found
    cases found
    obtain ⟨holder, before, present, holds, origin⟩ := transfers batch held known
    by_cases mine : holder = other
    · subst mine
      rcases origin with same | unknown
      · exact different same
      · exact settling before present unknown
    · exact alone holder before mine present holds
  · rw [setCall_other here] at found
    exact alone third after apart found held

end frame

/-- What every call may rely on when something happens. -/
structure Keeps (w v : World κ T) : Prop where
  known : ∀ batch ∈ w.batches, batch ∈ v.batches
  executed : ∀ batch, Executed w batch → Executed v batch
  wrote : ∀ script write, w.ledger.Wrote script write → v.ledger.Wrote script write
  superseded : ∀ batch, ¬ Executed w batch → Scripts.Superseded w.ledger batch.script → ¬ Executed v batch
  closed : ∀ batch, Closed w batch → Closed v batch
  owns : ∀ seq batch, Owns w seq batch → Owns v seq batch

/-- What a call knows about its first send stays true. -/
def KeepsFirst (w v : World κ T) (c : Nat) (call : Call κ T) : Prop :=
  ∀ state, call.stage = .settling state → state.batch ∈ w.batches → Alone w c state.batch →
    FirstSend w c state.batch state.wait → Alone v c state.batch ∧ FirstSend v c state.batch state.wait

namespace Keeps
variable {w v : World κ T}

variable {batch : Batch κ}

theorem superseded_mono (keeps : Keeps w v) (superseded : Scripts.Superseded w.ledger batch.script) :
    Scripts.Superseded v.ledger batch.script := by
  obtain ⟨write, member, value, base, other, second, wrote, rest⟩ := superseded
  exact ⟨write, member, value, base, other, second, keeps.wrote other second wrote, rest⟩

theorem told (keeps : Keeps w v) (told : Told w batch verdict) : Told v batch verdict := by
  cases verdict with
  | unproven => trivial
  | applied => exact keeps.executed batch told
  | lost => exact ⟨keeps.superseded batch told.1 told.2, keeps.superseded_mono told.2⟩
  | notRun => exact told

variable {call : Call κ T}

section
variable (keeps : Keeps w v)
include keeps

theorem latest (latest : Latest w call batch) : Latest v call batch := by
  obtain ⟨earlier, tried, closed⟩ := latest
  exact ⟨earlier, tried, fun other member => keeps.closed other (closed other member)⟩

theorem doubted (doubted : Doubted w batch wait) : Doubted v batch wait := by
  match wait with
  | .send => exact doubted
  | .awaiting _ none => trivial
  | .awaiting _ (some result) => exact fun yes => keeps.executed batch (doubted yes)
  | .look todo verdicts => exact ⟨doubted.1, fun verdict member => keeps.told (doubted.2 verdict member)⟩

theorem awaits (awaits : Awaits w batch wait) : Awaits v batch wait := by
  match wait with
  | .awaiting seq none => exact keeps.owns seq batch awaits
  | .send | .awaiting _ (some _) | .look _ _ => trivial

theorem succeeded (done : Succeeded cfg w call batch values) : Succeeded cfg v call batch values :=
  ⟨keeps.latest done.1, keeps.known batch done.2.1, keeps.executed batch done.2.2.1, done.2.2.2⟩

theorem final (final : Final cfg w call report) : Final cfg v call report := by
  have closed : (∀ batch ∈ call.tried, Closed w batch) → ∀ batch ∈ call.tried, Closed v batch :=
    fun before batch member => keeps.closed batch (before batch member)
  cases report with
  | applied results =>
    obtain ⟨batch, values, done, same⟩ := final
    exact ⟨batch, values, keeps.succeeded done, same⟩
  | created result =>
    obtain ⟨batch, values, done⟩ := final
    exact ⟨batch, values, keeps.succeeded done⟩
  | deleted =>
    rcases final with ⟨batch, values, done⟩ | ⟨absent, before⟩
    · exact .inl ⟨batch, values, keeps.succeeded done⟩
    · exact .inr ⟨absent, closed before⟩
  | unknown batch => exact ⟨keeps.latest final.1, keeps.known batch final.2.1, final.2.2⟩
  | declined | notCreated | mismatch | conflict | tokenMismatch | failed => exact closed final

theorem seen (seen : Seen w key raw) : Seen v key raw := by
  intro value same
  obtain ⟨script, origin, wrote, rest⟩ := seen value same
  exact ⟨script, origin, keeps.wrote script origin wrote, rest⟩

theorem sound (first : KeepsFirst w v c call) (sound : Sound cfg w c call) :
    Sound cfg v c call := by
  simp only [Sound] at sound ⊢
  split
  · rename_i todo raws stage
    rw [stage] at sound
    obtain ⟨distinct, closed, read, keys, raws⟩ := sound
    exact ⟨distinct, fun batch member => keeps.closed batch (closed batch member), read, keys,
      raws.imp fun _ _ => keeps.seen⟩
  · rename_i state stage
    rw [stage] at sound
    obtain ⟨distinct, latest, progress, computed⟩ := sound
    refine ⟨distinct, keeps.latest latest, ⟨keeps.known _ progress.known, keeps.awaits progress.awaits, ?_, ?_⟩, computed⟩
    · intro sure
      obtain ⟨alone, sent⟩ := progress.first sure
      exact first state stage progress.known alone sent
    · intro unsure
      exact keeps.doubted (progress.doubted unsure)
  · rename_i report stage
    rw [stage] at sound
    exact ⟨keeps.final sound.1, sound.2⟩

end

end Keeps

section set
variable {w : World κ T} {c : Nat} {call : Call κ T}

theorem setCall_keeps (transfers : Transfers w c call) : Keeps w (w.setCall c call) := by
  refine ⟨fun _ member => member, fun _ ran => ran, fun _ _ wrote => wrote, fun _ unexecuted _ => unexecuted, ?_,
    fun _ _ owns => owns⟩
  intro batch closed
  exact closed.setCall transfers

theorem setCall_first (transfers : Transfers w c call) (different : other ≠ c)
    (found : w.calls other = some before) : KeepsFirst w (w.setCall c call) other before := by
  intro state stage known alone first
  refine ⟨alone.setCall different known ?_ transfers, first⟩
  intro again same unknown
  obtain rfl := some.inj (found.symm.trans same)
  rw [stage] at unknown
  contradiction

end set

theorem But.complete (but : But cfg w c) {call : Call κ T} (found : w.calls c = some call)
    (sound : Sound cfg w c call) : Consistent cfg w := by
  refine { but with sound := ?_ }
  intro other after present
  by_cases here : other = c
  · subst here
    rw [found] at present
    exact some.inj present ▸ sound
  · exact but.others other after here present

theorem But.set (but : But cfg w c) {call : Call κ T} (transfers : Transfers w c call) :
    But cfg (w.setCall c call) c := by
  refine { but with others := ?_ }
  intro other after different found
  rw [setCall_other different] at found
  exact (setCall_keeps transfers).sound (setCall_first transfers different found) (but.others other after different found)

/-- A step of one call that leaves the store and the commands alone. -/
theorem But.setCall {w : World κ T} (but : But cfg w c) (transfers : Transfers w c call)
    (sound : Sound cfg (w.setCall c call) c call) : Consistent cfg (w.setCall c call) :=
  (but.set transfers).complete setCall_self sound

end Roost.Versionstore
