import RoostCore.Saga.Log
import RoostCore.Saga.Readable

/-! What a replay reads. A log whose messages are the tail of everything ever stored,
from a bound that the snapshot covers, replays to the last event of every saga. -/
namespace Roost.Saga
open Go List Option LogMsg

/-- Messages in the order of their sequences. -/
def Ordered (log : List LogMsg) : Prop := log.Pairwise fun a b => a.seq < b.seq

theorem Ordered.filter (ordered : Ordered log) (keep : LogMsg → Bool) :
    Ordered (log.filter keep) := List.Pairwise.filter keep ordered

theorem Ordered.le_last (ordered : Ordered log) (last : log.getLast? = some msg)
    (member : other ∈ log) : other.seq ≤ msg.seq := by
  obtain ⟨before, rfl⟩ := getLast?_eq_some_iff.mp last
  rcases mem_snoc.mp member with earlier | rfl
  · exact Nat.le_of_lt ((pairwise_append.mp ordered).2.2 other earlier msg mem_cons_self)
  · exact Nat.le_refl _

/-- The last message above a bound is the last message, if that is above it. -/
theorem Ordered.getLast?_above (ordered : Ordered log) (bound : Nat) :
    (log.filter fun msg => bound < msg.seq).getLast? = log.getLast?.filter fun msg => bound < msg.seq := by
  cases last : log.getLast? with
  | none =>
    rw [List.getLast?_eq_none_iff.mp last]
    rfl
  | some msg =>
    by_cases above : bound < msg.seq
    · obtain ⟨before, rfl⟩ := List.getLast?_eq_some_iff.mp last
      simp [List.filter_append, Option.filter, above]
    have none : log.filter (fun msg => bound < msg.seq) = [] := by
      rw [List.filter_eq_nil_iff]
      intro other member
      have := ordered.le_last last member
      simp only [decide_eq_true_eq]
      omega
    simp [none, Option.filter, above]

theorem Ordered.le_lastSeq (ordered : Ordered log) (member : msg ∈ log) : msg.seq ≤ lastSeq log := by
  cases last : log.getLast? with
  | none => rw [getLast?_eq_none_iff.mp last] at member; contradiction
  | some final =>
    simp only [lastSeq, last, map_some, getD_some]
    exact ordered.le_last last member

def LogMsg.of (id : String) (msg : LogMsg) : Bool :=
  msg.event?.any fun ev => ev.saga.record.id == id

/-- The saga states that messages tell of, in their order. -/
def states (msgs : List LogMsg) : List SagaState :=
  msgs.filterMap fun msg => msg.event?.map LogEvent.saga

/-- The last of the states that is one of the saga. -/
def latest (states : List SagaState) (id : String) : Option SagaState :=
  (states.filter fun st => st.record.id == id).getLast?

/-- The state of the last event of a saga up to a sequence. -/
def stateAt (history : List LogMsg) (n : Nat) (id : String) : Option SagaState :=
  latest (states (history.filter fun msg => msg.seq ≤ n)) id

/-- The sagas at a sequence: every saga is in the state of its last event, or it is gone. -/
def Holds (gone : SagaState → Prop) (history : List LogMsg) (n : Nat)
    (sagas : Table String SagaState) : Prop :=
  ∀ id, sagas.get id = stateAt history n id ∨
    sagas.get id = none ∧ ∃ st ∈ stateAt history n id, gone st

theorem latest_append (xs ys : List SagaState) (id : String) :
    latest (xs ++ ys) id = (latest ys id).or (latest xs id) := by
  simp [latest, filter_append, getLast?_append]

theorem latest_states (msgs : List LogMsg) (id : String) : latest (states msgs) id =
    (msgs.filter (of id)).getLast?.bind fun msg => msg.event?.map LogEvent.saga := by
  induction msgs using reverseRecOn with
  | nil => rfl
  | append_singleton rest msg ih =>
    have told : states (rest ++ [msg]) = states rest ++ states [msg] := filterMap_append
    rw [told, latest_append, ih, filter_append]
    cases event : msg.event? with
    | none => simp [latest, states, event, of]
    | some ev =>
      by_cases here : ev.saga.record.id = id <;> simp [latest, states, event, of, here]

theorem Ordered.split (ordered : Ordered log) (n : Nat) :
    log = (log.filter fun msg => msg.seq ≤ n) ++ log.filter fun msg => n < msg.seq := by
  induction log with
  | nil => rfl
  | cons head rest ih =>
    obtain ⟨later, ordered⟩ := pairwise_cons.mp ordered
    by_cases early : head.seq ≤ n
    · simp [early, Nat.not_lt.mpr early, ← ih ordered]
    · have none : (rest.filter fun msg => msg.seq ≤ n) = [] := by
        simp only [filter_eq_nil_iff, decide_eq_true_eq]
        intro msg member
        have := later msg member
        omega
      have all : (rest.filter fun msg => n < msg.seq) = rest := by
        simp only [filter_eq_self, decide_eq_true_eq]
        intro msg member
        have := later msg member
        omega
      simp [early, Nat.not_le.mp early, none, all]

theorem Holds.grows (holds : Holds gone history n sagas) (later : ∀ msg ∈ more, n < msg.seq) :
    Holds gone (history ++ more) n sagas := by
  have none : (more.filter fun msg => msg.seq ≤ n) = [] := by
    simpa [filter_eq_nil_iff] using later
  simpa only [Holds, stateAt, filter_append, none, append_nil] using holds

/-- A message that the decoder accepts as it is. -/
def LogMsg.Decodes (o : Options) (msg : LogMsg) : Prop :=
  ∀ ev, msg.event? = some ev → decodeEvent o.layout o.k ev = .ok ev

/-- What a replay yields: the last event of every saga after the snapshot `base`, the
greatest watermark and exactly the inputs above it. -/
structure Reconstructs (history : List LogMsg) (base r : Replayed) : Prop where
  lastEv : r.lastEv = lastEvent history
  sagas : ∀ id, r.sagas.get id =
    match ((history.filter (of id)).getLast?).filter (fun msg => base.lastEv < msg.seq) with
    | some msg => msg.event?.map LogEvent.saga
    | none => base.sagas.get id
  inHi : r.inHi = (history.filter fun msg => base.lastEv < msg.seq).foldl
    (fun hi msg => max hi ((msg.event?.map LogEvent.in_).getD 0)) base.inHi
  pending : r.pending = history.filter fun msg => msg.event?.isNone ∧ r.inHi < msg.seq

/-- One message of the range when its event can be read. -/
def Replayed.take (base r : Replayed) (msg : LogMsg) : Replayed :=
  match msg.event? with
  | none => if base.inHi < msg.seq then { r with pending := r.pending ++ [msg] } else r
  | some ev =>
      if msg.seq ≤ base.lastEv then r
      else
        { r with
          sagas := r.sagas.set ev.saga.record.id ev.saga, lastEv := msg.seq,
          inHi := max r.inHi ev.in_ }

theorem Replayed.read_take (base r : Replayed) (decodes : msg.Decodes o) :
    Replayed.read o base r msg = .ok (Replayed.take base r msg) := by
  unfold Replayed.read Replayed.take
  cases body : msg.body with
  | input kind data reply => simp [event?, body]
  | event ev =>
    have event : msg.event? = some ev := by simp [event?, body]
    simp only [event]
    split
    · rfl
    · rw [decodes ev event]
      rfl

theorem Replayed.readAll_take (base : Replayed) {range : List LogMsg}
    (decodes : ∀ msg ∈ range, msg.Decodes o) (r : Replayed) :
    range.foldlM (Replayed.read o base) r = .ok (range.foldl (Replayed.take base) r) := by
  induction range generalizing r with
  | nil => rfl
  | cons msg rest ih =>
    rw [foldlM_cons, Replayed.read_take base r (decodes msg mem_cons_self)]
    exact ih (fun other member => decodes other (mem_cons_of_mem msg member)) _

theorem Replayed.takeAll (base : Replayed) (range : List LogMsg) (r : Replayed) :
    (range.foldl (Replayed.take base) r).pending =
        r.pending ++ range.filter (fun msg => msg.event?.isNone ∧ base.inHi < msg.seq) ∧
      (range.foldl (Replayed.take base) r).inHi =
        (range.filter fun msg => base.lastEv < msg.seq).foldl
          (fun hi msg => max hi ((msg.event?.map LogEvent.in_).getD 0)) r.inHi ∧
      (range.foldl (Replayed.take base) r).lastEv =
        (((range.filter (·.event?.isSome)).filter
          (fun msg => base.lastEv < msg.seq)).getLast?.map seq).getD r.lastEv ∧
      ∀ id, (range.foldl (Replayed.take base) r).sagas.get id =
        match ((range.filter (of id)).filter (fun msg => base.lastEv < msg.seq)).getLast? with
        | some msg => msg.event?.map LogEvent.saga
        | none => r.sagas.get id := by
  induction range using reverseRecOn with
  | nil => simp
  | append_singleton rest msg ih =>
    obtain ⟨pending, inHi, lastEv, sagas⟩ := ih
    rw [foldl_append]
    generalize rest.foldl (Replayed.take base) r = s at *
    simp only [foldl_cons, foldl_nil, filter_append, foldl_append]
    unfold Replayed.take
    cases event : msg.event? with
    | none =>
      have foreign (id : String) : msg.of id = false := by simp [of, event]
      have watermark : (if base.inHi < msg.seq then { s with pending := s.pending ++ [msg] }
          else s).inHi = ([msg].filter fun msg => base.lastEv < msg.seq).foldl
            (fun hi msg => max hi ((msg.event?.map LogEvent.in_).getD 0)) s.inHi := by
        by_cases above : base.inHi < msg.seq <;> by_cases newer : base.lastEv < msg.seq <;>
          simp [above, newer, event]
      by_cases above : base.inHi < msg.seq
      all_goals
        simp only [above, if_true, if_false] at watermark ⊢
        exact ⟨by simp [event, above, pending], inHi ▸ watermark, by simp [event, lastEv],
          by simp [foreign, sagas]⟩
    | some ev =>
      by_cases covered : msg.seq ≤ base.lastEv
      · have notAbove : ¬ base.lastEv < msg.seq := Nat.not_lt.mpr covered
        have sagas' (id : String) : (filter (of id) [msg]).filter
            (fun msg => base.lastEv < msg.seq) = [] := by
          by_cases here : msg.of id <;> simp [here, notAbove]
        simp [event, covered, notAbove, pending, inHi, lastEv, sagas, sagas']
      · have above : base.lastEv < msg.seq := Nat.not_le.mp covered
        refine ⟨by simp [event, covered, pending], by simp [event, covered, above, inHi],
          by simp [event, covered, above], fun id => ?_⟩
        simp only [covered, if_false, Table.get_set]
        by_cases here : id = ev.saga.record.id
        · have of : msg.of id = true := by simp [of, event, here]
          simp [here ▸ of, above, event, here]
        · have of : msg.of id = false := by simp [of, event, Ne.symm here]
          simp [of, here, sagas]

theorem le_foldl_max (f : LogMsg → Nat) (msgs : List LogMsg) (hi : Nat) :
    hi ≤ msgs.foldl (fun hi msg => max hi (f msg)) hi := by
  induction msgs generalizing hi with
  | nil => exact Nat.le_refl hi
  | cons msg rest ih => exact Nat.le_trans (Nat.le_max_left _ _) (ih _)

/-- A manifest that the server lists, with its body and the event it covers. -/
structure Listed (o : Options) (server : Server) (history : List LogMsg) (m : Manifest) : Prop where
  v : m.v = wireVersion
  part : m.part = o.k
  layout : m.layout = o.layout
  object : m.object = snapshotObject o.k m.lastEv
  stored : server.objects.get m.object = some m.sum
  held : ∀ st ∈ m.sum, Held o st
  event : ∃ msg ∈ history, msg.event?.isSome = true ∧ msg.seq = m.lastEv

/-- The server keeps everything it ever stored from a bound on that its snapshot
covers. -/
structure Durable (o : Options) (server : Server) (history : List LogMsg) : Prop where
  ordered : Ordered history
  bounds : ∀ msg ∈ history, 0 < msg.seq ∧ msg.seq ≤ server.last
  readable : ∀ msg ∈ history, ∀ ev, msg.event? = some ev → ∃ written : LogEvent,
    written.Readable o ∧ ev = encodeEvent written
  kept : ∃ bound, server.log = history.filter (fun msg => bound ≤ msg.seq) ∧
    bound ≤ (server.manifest.map fun m => min (m.inHi + 1) m.lastEv).getD 0
  listed : ∀ m, server.manifest = some m → Listed o server history m

theorem covered_cases {manifest : Option Manifest}
    (covered : bound ≤ (manifest.map fun m => min (m.inHi + 1) m.lastEv).getD 0) :
    bound = 0 ∨ ∃ m, manifest = some m ∧ bound ≤ m.inHi + 1 ∧ bound ≤ m.lastEv := by
  cases manifest with
  | none => exact .inl (Nat.le_zero.mp covered)
  | some m => exact .inr ⟨m, rfl, Nat.le_min.mp covered⟩

theorem Durable.le_lastEvent (durable : Durable o server history) (member : msg ∈ history)
    (event : msg.event?.isSome = true) : msg.seq ≤ lastEvent history := by
  have inside : msg ∈ history.filter (·.event?.isSome) := mem_filter.mpr ⟨member, event⟩
  unfold lastEvent
  cases last : (history.filter (·.event?.isSome)).getLast? with
  | none =>
    rw [getLast?_eq_none_iff.mp last] at inside
    contradiction
  | some final => exact (durable.ordered.filter (·.event?.isSome)).le_last last inside

theorem Durable.states_above (durable : Durable o server history) (last : lastEvent history ≤ n) :
    states (history.filter fun msg => n < msg.seq) = [] := by
  refine filterMap_eq_nil_iff.mpr fun msg member => ?_
  obtain ⟨stored, above⟩ := mem_filter.mp member
  cases event : msg.event? with
  | none => rfl
  | some ev =>
    have := durable.le_lastEvent stored (by rw [event]; rfl)
    simp only [decide_eq_true_eq] at above
    omega

/-- The last states are those after a sequence, and for the other sagas those up to it. -/
theorem Durable.stateAt_last (durable : Durable o server history) (n : Nat) (id : String) :
    stateAt history (lastEvent history) id =
      (latest (states (history.filter fun msg => n < msg.seq)) id).or (stateAt history n id) := by
  have whole (n : Nat) : states history = states (history.filter fun msg => msg.seq ≤ n) ++
      states (history.filter fun msg => n < msg.seq) := by
    rw [states, states, states, ← filterMap_append, ← durable.ordered.split n]
  have last := whole (lastEvent history)
  rw [durable.states_above (Nat.le_refl _), append_nil] at last
  rw [stateAt, ← last, whole n, latest_append]
  rfl

theorem Durable.decodes (durable : Durable o server history) (member : msg ∈ history) :
    msg.Decodes o := by
  intro ev event
  obtain ⟨written, readable, rfl⟩ := durable.readable msg member ev event
  exact readable.decodes

/-- The sagas of a snapshot body. -/
def loadSagas (states : List SagaState) : Table String SagaState :=
  Table.setAll ∅ (states.map fun st => (st.record.id, st))

/-- Every state of a snapshot is held by the partition, under its own ID. -/
theorem loaded_held (states : List SagaState) (sagas : Table String SagaState)
    (before : ∀ id st, sagas.get id = some st → Held o st ∧ st.record.id = id)
    (held : ∀ st ∈ states, Held o st) :
    ∀ id st, (states.foldl (fun sagas st => sagas.set st.record.id st) sagas).get id = some st →
      Held o st ∧ st.record.id = id := by
  induction states generalizing sagas with
  | nil => exact before
  | cons head rest ih =>
    apply ih
    · intro id st found
      rw [Table.get_set] at found
      split at found
      · rename_i here
        cases found
        exact ⟨held _ mem_cons_self, here.symm⟩
      · exact before id st found
    · exact fun st member => held st (mem_cons_of_mem _ member)

/-- What the snapshot of a durable server loads to. -/
structure Loaded (o : Options) (server : Server) (history : List LogMsg) (base : Replayed) :
    Prop where
  snapshot : server.snapshot o = .ok base
  pending : base.pending = []
  manifest : base.lastEv = (server.manifest.map Manifest.lastEv).getD 0 ∧
    base.inHi = (server.manifest.map Manifest.inHi).getD 0
  event : base.lastEv = 0 ∨ ∃ msg ∈ history, msg.event?.isSome = true ∧ msg.seq = base.lastEv
  sagas : base.sagas = loadSagas ((server.manifest.map Manifest.sum).getD [])
  held : ∀ id st, base.sagas.get id = some st → Held o st ∧ st.record.id = id

section
variable (durable : Durable o server history)
include durable

theorem Durable.loads : ∃ base, Loaded o server history base := by
  cases manifest : server.manifest with
  | none =>
    refine ⟨{}, ?_, rfl, ?_, .inl rfl, ?_, ?_⟩
    · simp [Server.snapshot, manifest]
    · simp [manifest]
    · simp [manifest, loadSagas, Table.setAll]
    · intro id st found
      simp at found
  | some m =>
    have listed := durable.listed m manifest
    obtain ⟨msg, member, event, seq⟩ := listed.event
    have positive : m.lastEv ≠ 0 := by
      have := (durable.bounds msg member).1
      omega
    have decoded : decodeManifest o m = .ok m := by
      have named : m.object ≠ "" := by
        rw [listed.object]
        intro empty
        have texts := congrArg String.toList empty
        simp [snapshotObject] at texts
      simp [decodeManifest, listed.v, listed.part, listed.layout, named, positive]
    have body : decodeSnapshotBody o m.sum m = .ok m.sum := by
      simp only [decodeSnapshotBody, ne_eq, not_true, if_false]
      rw [if_neg]
      intro invalid
      obtain ⟨st, member, wrong⟩ := any_eq_true.mp invalid
      have held := listed.held st member
      simp [held.fit.validate, held.owned] at wrong
    refine ⟨{ sagas := m.sum.foldl (fun sagas st => sagas.set st.record.id st) ∅
              lastEv := m.lastEv, inHi := m.inHi }, ?_, rfl, ?_, .inr ⟨msg, member, event, seq⟩, ?_, ?_⟩
    · simp [Server.snapshot, manifest, decoded, listed.stored, body, bind, Except.bind]
    · simp [manifest]
    · simp [manifest, loadSagas, Table.setAll, foldl_map]
    · exact loaded_held m.sum ∅ (fun id st found => by simp at found) listed.held

/-- The range a replay reads is everything ever stored from its first sequence on. -/
theorem Durable.range (loaded : Loaded o server history base) :
    server.log.filter (fun msg => min base.lastEv base.inHi + 1 ≤ msg.seq ∧
      msg.seq ≤ lastSeq server.log) =
    history.filter fun msg => min base.lastEv base.inHi + 1 ≤ msg.seq := by
  obtain ⟨bound, log, covered⟩ := durable.kept
  have early : bound ≤ min base.lastEv base.inHi + 1 := by
    obtain ⟨lastEv, inHi⟩ := loaded.manifest
    rcases covered_cases covered with rfl | ⟨m, manifest, inputs, events⟩
    · exact Nat.zero_le _
    simp only [manifest, map_some, getD_some] at lastEv inHi
    omega
  have ordered : Ordered server.log := log ▸ durable.ordered.filter _
  have whole : server.log.filter (fun msg => min base.lastEv base.inHi + 1 ≤ msg.seq ∧
      msg.seq ≤ lastSeq server.log) =
      server.log.filter fun msg => min base.lastEv base.inHi + 1 ≤ msg.seq := by
    apply filter_congr
    intro msg member
    simp [ordered.le_lastSeq member]
  rw [whole, log, List.filter_filter]
  apply filter_congr
  intro msg member
  simp only [Bool.and_eq_left_iff_imp, decide_eq_true_eq]
  omega

theorem Durable.lastEvent_above
    (event : lastEv = 0 ∨ ∃ msg ∈ history, msg.event?.isSome = true ∧ msg.seq = lastEv) :
    (((history.filter (·.event?.isSome)).filter
      (fun msg => lastEv < msg.seq)).getLast?.map seq).getD lastEv = lastEvent history := by
  have ordered := durable.ordered.filter (·.event?.isSome)
  rw [ordered.getLast?_above]
  unfold lastEvent
  cases last : (history.filter (·.event?.isSome)).getLast? with
  | none =>
    rcases event with zero | ⟨msg, member, isEvent, -⟩
    · simp [zero]
    have inside : msg ∈ history.filter (·.event?.isSome) := List.mem_filter.mpr ⟨member, isEvent⟩
    rw [List.getLast?_eq_none_iff.mp last] at inside
    contradiction
  | some final =>
    by_cases above : lastEv < final.seq
    · simp [Option.filter, above]
    have positive := (durable.bounds final (List.mem_filter.mp
      (List.mem_of_getLast? last)).1).1
    rcases event with zero | ⟨msg, member, isEvent, seq⟩
    · omega
    have inside : msg ∈ history.filter (·.event?.isSome) := List.mem_filter.mpr ⟨member, isEvent⟩
    have := ordered.le_last last inside
    simp only [Option.filter, above, decide_false, Bool.false_eq_true, if_false, Option.map_none,
      Option.getD_none, Option.map_some, Option.getD_some]
    omega

theorem Durable.replays (loaded : Loaded o server history base) :
    ∃ r, replayOnce o server = .ok r ∧ Reconstructs history base r := by
  have range := durable.range loaded
  generalize first : min base.lastEv base.inHi + 1 = start at range
  have decodes : ∀ msg ∈ history.filter (fun msg => start ≤ msg.seq), msg.Decodes o :=
    fun msg member => durable.decodes (mem_filter.mp member).1
  obtain ⟨pending, inHi, lastEv, sagas⟩ :=
    Replayed.takeAll base (history.filter fun msg => start ≤ msg.seq) base
  have read := Replayed.readAll_take base decodes base
  generalize (history.filter fun msg => start ≤ msg.seq).foldl (Replayed.take base) base = r at *
  have newer (keep : LogMsg → Bool) :
      ((history.filter fun msg => start ≤ msg.seq).filter keep).filter
        (fun msg => base.lastEv < msg.seq) =
      (history.filter keep).filter fun msg => base.lastEv < msg.seq := by
    simp only [List.filter_filter]
    apply filter_congr
    intro msg _
    by_cases above : base.lastEv < msg.seq
    · have : start ≤ msg.seq := by omega
      simp [above, this]
    · simp [above]
  have watermark : r.inHi = (history.filter fun msg => base.lastEv < msg.seq).foldl
      (fun hi msg => max hi ((msg.event?.map LogEvent.in_).getD 0)) base.inHi := by
    have all := newer fun _ => true
    simp only [filter_true] at all
    rw [inHi, all]
  have grown : base.inHi ≤ r.inHi := by
    rw [watermark]
    exact le_foldl_max _ _ _
  refine ⟨{ r with pending := r.pending.filter fun msg => r.inHi < msg.seq }, ?_, ?_, fun id => ?_,
    watermark, ?_⟩
  · simp only [replayOnce, loaded.snapshot, bind, Except.bind, first, range, read]
  · rw [← durable.lastEvent_above loaded.event, ← newer, ← lastEv]
  · rw [← (durable.ordered.filter (of id)).getLast?_above, ← newer]
    exact sagas id
  · rw [pending, loaded.pending, List.nil_append, List.filter_filter, List.filter_filter]
    apply filter_congr
    intro msg _
    by_cases above : r.inHi < msg.seq
    · have early : start ≤ msg.seq := by omega
      have after : base.inHi < msg.seq := by omega
      simp [above, early, after]
    · simp [above]

/-- A replay over a snapshot that holds the sagas at its sequence holds them at the last
event. -/
theorem Reconstructs.holds (rebuilt : Reconstructs history base r)
    (holds : Holds gone history base.lastEv base.sagas) : Holds gone history r.lastEv r.sagas := by
  intro id
  have newer := latest_states (history.filter fun msg => base.lastEv < msg.seq) id
  rw [filter_comm, (durable.ordered.filter (of id)).getLast?_above] at newer
  rw [rebuilt.lastEv, durable.stateAt_last base.lastEv, newer, rebuilt.sagas id]
  cases last : (history.filter (of id)).getLast?.filter fun msg => base.lastEv < msg.seq with
  | none => exact holds id
  | some msg =>
    have of := (mem_filter.mp (mem_of_getLast? (filter_eq_some_iff.mp last).1)).2
    cases event : msg.event? with
    | none => simp [LogMsg.of, event] at of
    | some ev => exact .inl (by simp [event])

end

end Roost.Saga
