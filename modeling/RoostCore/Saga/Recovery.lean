import RoostCore.Saga.Replay

/-! The partition and its log over whole runs: the server stays durable under every
step of its single writer, so a replay reconstructs the committed state after a crash
at any point. -/
namespace Roost.Saga
open Go List Option

theorem snapshotObject_injective (same : snapshotObject k n = snapshotObject k m) : n = m := by
  have texts := congrArg String.toList same
  simp only [snapshotObject, String.toList_append, append_cancel_left_eq] at texts
  exact repr_injective (String.toList_inj.mp texts)

section storing
variable {bodies : List LogBody}

theorem stored_bounds (last : Nat) (bodies : List LogBody) :
    ∀ msg ∈ stored last bodies, last < msg.seq ∧ msg.seq ≤ last + bodies.length := by
  induction bodies generalizing last with
  | nil => simp [stored]
  | cons body rest ih =>
    intro msg member
    rcases mem_cons.mp member with rfl | later
    · simp only [length_cons]
      omega
    · have := ih (last + 1) msg later
      simp only [length_cons]
      omega

theorem stored_ordered (last : Nat) (bodies : List LogBody) : Ordered (stored last bodies) := by
  induction bodies generalizing last with
  | nil => exact List.Pairwise.nil
  | cons body rest ih =>
    refine pairwise_cons.mpr ⟨fun msg later => ?_, ih (last + 1)⟩
    exact (stored_bounds (last + 1) rest msg later).1

theorem stored_body (last : Nat) (member : msg ∈ stored last bodies) : msg.body ∈ bodies := by
  induction bodies generalizing last with
  | nil => contradiction
  | cons body rest ih =>
    rcases mem_cons.mp member with rfl | later
    · exact mem_cons_self
    · exact mem_cons_of_mem _ (ih (last + 1) later)

theorem stored_last (last : Nat) (some_ : bodies ≠ []) :
    (stored last bodies).getLast?.map LogMsg.seq = some (last + bodies.length) := by
  induction bodies generalizing last with
  | nil => exact absurd rfl some_
  | cons body rest ih =>
    cases rest with
    | nil => rfl
    | cons next more =>
      have tail := ih (last + 1) (by simp)
      simp only [stored, getLast?_cons_cons, length_cons] at tail ⊢
      rw [tail]
      congr 1
      omega

theorem lastEvent_events (log : List LogMsg) (last : Nat) (some_ : events ≠ []) :
    lastEvent (log ++ stored last (events.map LogBody.event)) = last + events.length := by
  have all : (stored last (events.map LogBody.event)).filter (·.event?.isSome) =
      stored last (events.map LogBody.event) := by
    rw [filter_eq_self]
    intro msg member
    obtain ⟨ev, -, body⟩ := mem_map.mp (stored_body last member)
    simp [LogMsg.event?, ← body]
  have nonempty : events.map LogBody.event ≠ [] := by simpa using some_
  have final := stored_last last nonempty
  cases tail : (stored last (events.map LogBody.event)).getLast? with
  | none => simp [tail] at final
  | some msg =>
    simp only [tail, map_some, some.injEq, length_map] at final
    simp [lastEvent, filter_append, all, getLast?_append, tail, final]

theorem lastEvent_quiet (history : List LogMsg) (quiet : ∀ msg ∈ more, msg.event? = none) :
    lastEvent (history ++ more) = lastEvent history := by
  have none : more.filter (·.event?.isSome) = [] := by
    simp only [filter_eq_nil_iff]
    intro msg member
    simp [quiet msg member]
  simp [lastEvent, filter_append, none]

theorem states_stored (last : Nat) (events : List LogEvent) :
    states (stored last (events.map LogBody.event)) = events.map LogEvent.saga := by
  induction events generalizing last with
  | nil => rfl
  | cons ev rest ih => simpa [states, stored, LogMsg.event?] using ih (last + 1)

end storing

theorem Listed.grows (listed : Listed o server history m) (more : List LogMsg) (last : Nat)
    (log : List LogMsg) :
    Listed o { server with last, log } (history ++ more) m := by
  obtain ⟨msg, member, event⟩ := listed.event
  exact { listed with event := ⟨msg, mem_append_left _ member, event⟩ }

/-- The bound of the log lies below every sequence still to come. -/
theorem Durable.bound_le (durable : Durable o server history)
    (covered : bound ≤ (server.manifest.map fun m => min (m.inHi + 1) m.lastEv).getD 0) :
    bound ≤ server.last := by
  rcases covered_cases covered with rfl | ⟨m, manifest, -, events⟩
  · exact Nat.zero_le _
  obtain ⟨msg, member, -, seq⟩ := (durable.listed m manifest).event
  have := (durable.bounds msg member).2
  omega

theorem Durable.lastEvent_le (durable : Durable o server history) :
    lastEvent history ≤ server.last := by
  unfold lastEvent
  cases last : (history.filter (·.event?.isSome)).getLast? with
  | none => exact Nat.zero_le _
  | some msg =>
    exact (durable.bounds msg (mem_filter.mp (mem_of_getLast? last)).1).2

theorem Durable.later (durable : Durable o server history) (bodies : List LogBody) :
    ∀ msg ∈ stored server.last bodies, lastEvent history < msg.seq := fun msg member =>
  Nat.lt_of_le_of_lt durable.lastEvent_le (stored_bounds server.last bodies msg member).1

theorem Durable.store {d : Deployment} (durable : Durable o d.server d.history)
    (readable : ∀ ev, LogBody.event ev ∈ bodies → ∃ written : LogEvent,
      written.Readable o ∧ ev = encodeEvent written) :
    Durable o (d.store bodies).server (d.store bodies).history := by
  have new := stored_bounds d.server.last bodies
  refine ⟨?_, fun msg member => ?_, fun msg member ev event => ?_, ?_, fun m manifest => ?_⟩
  · refine pairwise_append.mpr ⟨durable.ordered, stored_ordered _ _, fun a old b later => ?_⟩
    exact Nat.lt_of_le_of_lt (durable.bounds a old).2 (new b later).1
  · simp only [Deployment.store]
    rcases mem_append.mp member with old | later
    · have := durable.bounds msg old
      omega
    · have := new msg later
      omega
  · rcases mem_append.mp member with old | later
    · exact durable.readable msg old ev event
    apply readable
    have body := stored_body _ later
    unfold LogMsg.event? at event
    split at event
    · rename_i other same
      cases event
      exact same ▸ body
    · contradiction
  · obtain ⟨bound, log, covered⟩ := durable.kept
    refine ⟨bound, ?_, covered⟩
    have early := durable.bound_le covered
    have all : (stored d.server.last bodies).filter (fun msg => bound ≤ msg.seq) =
        stored d.server.last bodies := by
      rw [filter_eq_self]
      intro msg member
      have := (new msg member).1
      simp only [decide_eq_true_eq]
      omega
    simp [Deployment.store, all, log]
  · exact (durable.listed m manifest).grows _ _ _

structure Snapshotting.Sound (o : Options) (gone : SagaState → Prop) (server : Server) (history : List LogMsg)
    (proc : Process) (s : Snapshotting) : Prop where
  body : Holds gone history s.view.lastEv (loadSagas s.view.sagas)
  inHi : s.view.inHi ≤ proc.partition.inHi
  lastEv : s.view.lastEv ≤ proc.partition.lastEv
  since : proc.sinceSnapshot ≠ 0 → s.view.lastEv < proc.partition.lastEv
  event : ∃ msg ∈ history, msg.event?.isSome = true ∧ msg.seq = s.view.lastEv
  held : ∀ st ∈ s.view.sagas, Held o st
  ahead : s.stage = .taken ∨ s.stage = .stored → ∀ m, server.manifest = some m →
    m.lastEv < s.view.lastEv ∧ m.inHi ≤ s.view.inHi
  stored : s.stage = .stored →
    server.objects.get (snapshotObject o.k s.view.lastEv) = some s.view.sagas
  listed : s.stage ≠ .taken → s.stage ≠ .stored → ∃ m, server.manifest = some m ∧
    m.lastEv = s.view.lastEv ∧ m.inHi = s.view.inHi

structure Publishing.Sound (o : Options) (history : List LogMsg) (p : Partition)
    (pub : Publishing) : Prop where
  last : pub.last = lastEvent history
  grows : p.lastEv ≤ pub.last
  grown : pub.rest ≠ pub.round.events → p.lastEv < pub.last
  untouched : pub.rest = pub.round.events → pub.last = p.lastEv
  watermark : p.inHi ≤ pub.round.maxIn
  round : pub.round.Sound o p
  keyed : pub.round.Keyed p
  indexed : pub.round.Indexed
  published : ∃ done, done ++ pub.rest = pub.round.events ∧
    states (history.filter fun msg => p.lastEv < msg.seq) = done.map LogEvent.saga

structure Process.Sound (o : Options) (gone : SagaState → Prop) (server : Server) (history : List LogMsg) (proc : Process) :
    Prop where
  partition : proc.partition.Sound o
  holds : Holds gone history proc.partition.lastEv proc.partition.sagas
  idle : proc.publishing = none → proc.partition.lastEv = lastEvent history
  publishing : ∀ pub, proc.publishing = some pub → pub.Sound o history proc.partition
  since : proc.sinceSnapshot ≠ 0 → 0 < proc.partition.lastEv
  ahead : ∀ m, server.manifest = some m → m.inHi ≤ proc.partition.inHi ∧
    m.lastEv ≤ proc.partition.lastEv ∧
    (proc.sinceSnapshot ≠ 0 → m.lastEv < proc.partition.lastEv)
  snapshot : ∀ s, proc.snapshot = some s → s.Sound o gone server history proc

structure Deployment.Sound (o : Options) (gone : SagaState → Prop) (d : Deployment) : Prop where
  durable : Durable o d.server d.history
  told : ∀ m, d.server.manifest = some m → Holds gone d.history m.lastEv (loadSagas m.sum)
  process : ∀ proc, d.process = some proc → proc.Sound o gone d.server d.history

section steps
variable {o : Options} {gone : SagaState → Prop} {d : Deployment} {proc : Process}

theorem Process.Sound.lastEv_le (sound : proc.Sound o gone server history) :
    proc.partition.lastEv ≤ lastEvent history := by
  cases publishing : proc.publishing with
  | none => exact Nat.le_of_eq (sound.idle publishing)
  | some pub =>
    have round := sound.publishing pub publishing
    exact round.last ▸ round.grows

theorem Snapshotting.Sound.grows (sound : Snapshotting.Sound o gone server history proc s)
    (process : proc.partition.lastEv ≤ lastEvent history)
    (later : ∀ msg ∈ more, lastEvent history < msg.seq) (last : Nat) (log : List LogMsg) :
    Snapshotting.Sound o gone { server with last, log } (history ++ more) proc s := by
  obtain ⟨msg, member, event⟩ := sound.event
  exact { sound with
    event := ⟨msg, mem_append_left _ member, event⟩
    body := sound.body.grows fun msg member =>
      Nat.lt_of_le_of_lt (Nat.le_trans sound.lastEv process) (later msg member) }

theorem Process.Sound.elsewhere (sound : proc.Sound o gone server history)
    (later : ∀ msg ∈ more, lastEvent history < msg.seq) (quiet : ∀ msg ∈ more, msg.event? = none)
    (last : Nat) (log : List LogMsg) :
    proc.Sound o gone { server with last, log } (history ++ more) := by
  have same := lastEvent_quiet history quiet
  have below := sound.lastEv_le
  have above (msg : LogMsg) (member : msg ∈ more) := Nat.lt_of_le_of_lt below (later msg member)
  refine ⟨sound.partition, sound.holds.grows above, fun idle => same ▸ sound.idle idle,
    fun pub publishing => ?_, sound.since, sound.ahead, fun s snapshot => ?_⟩
  · have before := sound.publishing pub publishing
    obtain ⟨done, whole, told⟩ := before.published
    have none : states (more.filter fun msg => proc.partition.lastEv < msg.seq) = [] :=
      filterMap_eq_nil_iff.mpr fun msg member => by rw [quiet msg (mem_filter.mp member).1]; rfl
    refine { before with last := same ▸ before.last, published := ⟨done, whole, ?_⟩ }
    rw [filter_append, states, filterMap_append, ← states, ← states, told, none, append_nil]
  · exact (sound.snapshot s snapshot).grows below later last log

theorem Deployment.Sound.told_store (sound : d.Sound o gone) (bodies : List LogBody) :
    ∀ m, (d.store bodies).server.manifest = some m →
      Holds gone (d.store bodies).history m.lastEv (loadSagas m.sum) := by
  intro m manifest
  obtain ⟨msg, member, event, seq⟩ := (sound.durable.listed m manifest).event
  have below := sound.durable.le_lastEvent member event
  exact (sound.told m manifest).grows fun msg member =>
    Nat.lt_of_le_of_lt (seq ▸ below) (sound.durable.later bodies msg member)

theorem Deployment.Sound.arrive (sound : d.Sound o gone) (kind : InputKind) (data : InputData)
    (reply : String) : (d.store [.input kind data reply]).Sound o gone := by
  refine ⟨sound.durable.store fun ev member => ?_, sound.told_store _, fun proc running => ?_⟩
  · simp at member
  · refine (sound.process proc running).elsewhere (sound.durable.later _) (fun msg member => ?_) _ _
    cases mem_singleton.mp member
    rfl

theorem Deployment.Sound.elsewhere (sound : d.Sound o gone) (messages : Nat) : Deployment.Sound o gone
      { d with server := { d.server with last := d.server.last + messages } } := by
  refine ⟨⟨sound.durable.ordered, fun msg member => ?_, sound.durable.readable, sound.durable.kept,
    fun m manifest => ?_⟩, sound.told, fun proc running => ?_⟩
  · have := sound.durable.bounds msg member
    dsimp only
    omega
  · have listed := (sound.durable.listed m manifest).grows [] (d.server.last + messages) d.server.log
    rwa [append_nil] at listed
  · have later : ∀ msg ∈ ([] : List LogMsg), lastEvent d.history < msg.seq := by simp
    have quiet : ∀ msg ∈ ([] : List LogMsg), msg.event? = none := by simp
    have next := (sound.process proc running).elsewhere later quiet (d.server.last + messages) d.server.log
    rwa [append_nil] at next

theorem Deployment.Sound.crash (sound : d.Sound o gone) : Deployment.Sound o gone { d with process := none } :=
  ⟨sound.durable, sound.told, nofun⟩

theorem Deployment.Sound.publish (sound : d.Sound o gone) (running : d.process = some proc)
    (publishing : proc.publishing = some pub) (left : pub.rest ≠ []) :
    (d.publish proc pub).Sound o gone := by
  have process := sound.process proc running
  have before := process.publishing pub publishing
  obtain ⟨done, whole, told⟩ := before.published
  unfold Deployment.publish
  split
  · exact sound.crash
  generalize mark : (if pub.rest.length ≤ logBatchMaxMessages then pub.round.maxIn
    else proc.partition.inHi) = watermark
  have chunk : pub.chunk proc.partition = ((pub.rest.take logBatchMaxMessages).map
      fun ev => encodeEvent { ev with in_ := watermark }).map LogBody.event := by
    simp [Publishing.chunk, mark, Function.comp_def]
  have some_ : (pub.rest.take logBatchMaxMessages).map
      (fun ev => encodeEvent { ev with in_ := watermark }) ≠ [] := by
    simp [left, logBatchMaxMessages]
  have durable : Durable o (d.store (pub.chunk proc.partition)).server
      (d.store (pub.chunk proc.partition)).history := by
    apply sound.durable.store
    intro ev member
    rw [chunk] at member
    simp only [List.map_map, List.mem_map, Function.comp_apply, LogBody.event.injEq] at member
    obtain ⟨written, taken, rfl⟩ := member
    have readable := before.round.events written
      (whole ▸ mem_append_right done (mem_of_mem_take taken))
    exact ⟨_, readable.stamped watermark, rfl⟩
  have last : lastEvent (d.store (pub.chunk proc.partition)).history =
      (d.store (pub.chunk proc.partition)).server.last := by
    simp only [Deployment.store, chunk]
    rw [lastEvent_events _ _ some_, length_map, length_map, length_map]
  have later : pub.last < (d.store (pub.chunk proc.partition)).server.last := by
    have bound := sound.durable.lastEvent_le
    have length : 0 < (pub.chunk proc.partition).length := by
      rw [chunk, length_map]
      exact length_pos_iff.mpr some_
    simp only [Deployment.store, before.last]
    omega
  have above (msg : LogMsg) (member : msg ∈ stored d.server.last (pub.chunk proc.partition)) :
      proc.partition.lastEv < msg.seq :=
    Nat.lt_of_le_of_lt process.lastEv_le (sound.durable.later _ msg member)
  refine ⟨durable, sound.told_store _, fun next running => ?_⟩
  cases running
  refine ⟨process.partition, process.holds.grows above, nofun, fun pub' publishing' => ?_,
    process.since, process.ahead, fun s snapshot => ?_⟩
  · cases some.inj publishing'
    have grows := before.grows
    refine ⟨last.symm, by dsimp only; omega, fun _ => by dsimp only; omega, fun same => ?_,
      before.watermark, before.round, before.keyed, before.indexed,
      done ++ pub.rest.take logBatchMaxMessages, ?_, ?_⟩
    · -- the published chunk is gone from the rest
      have shorter := congrArg length (same.trans whole.symm)
      have positive := length_pos_iff.mpr left
      simp only [length_drop, length_append, logBatchMaxMessages] at shorter
      omega
    · simp only [append_assoc, take_append_drop, whole]
    · have all : (stored d.server.last (pub.chunk proc.partition)).filter
          (fun msg => proc.partition.lastEv < msg.seq) =
          stored d.server.last (pub.chunk proc.partition) := by simpa [filter_eq_self] using above
      simp only [Deployment.store, filter_append, all, states, filterMap_append]
      rw [← states, ← states, told, chunk, states_stored, map_append, List.map_map]
      rfl
  · exact { (process.snapshot s snapshot).grows process.lastEv_le
      (sound.durable.later (pub.chunk proc.partition)) _ _ with }

/-- The overlay of a round is what its events tell last. -/
theorem Round.Indexed.latest {r : Round} (indexed : r.Indexed) (id : String) :
    Saga.latest (r.events.map LogEvent.saga) id = r.overlay.get id := by
  have none_of (absent : r.overlay.get id = none) (ev : LogEvent) (member : ev ∈ r.events) :
      ev.saga.record.id ≠ id := by
    rintro rfl
    obtain ⟨j, at_⟩ := mem_iff_getElem?.mp member
    obtain ⟨i, here, -⟩ := indexed.indexed j ev at_
    obtain ⟨_, -, -, found⟩ := indexed.last _ i here
    rw [absent] at found
    contradiction
  cases found : r.overlay.get id with
  | none => simpa [Saga.latest, filter_eq_nil_iff] using none_of found
  | some st =>
    obtain ⟨i, here⟩ := indexed.covered id st found
    obtain ⟨ev, at_, own, same⟩ := indexed.last id i here
    obtain ⟨inside, value⟩ := List.getElem?_eq_some_iff.mp at_
    have split : r.events.map LogEvent.saga = (r.events.take i).map LogEvent.saga ++
        ([ev.saga] ++ (r.events.drop (i + 1)).map LogEvent.saga) := by
      conv_lhs => rw [← take_append_drop i r.events, drop_eq_getElem_cons inside, value]
      simp
    -- no event of the saga comes after the one that the index names
    have rest : Saga.latest ((r.events.drop (i + 1)).map LogEvent.saga) id = none := by
      refine getLast?_eq_none_iff.mpr (filter_eq_nil_iff.mpr fun st member also => ?_)
      obtain ⟨later, after, rfl⟩ := List.mem_map.mp member
      obtain ⟨j, at_⟩ := mem_iff_getElem?.mp after
      rw [getElem?_drop] at at_
      obtain ⟨k, there, before⟩ := indexed.indexed _ _ at_
      rw [beq_iff_eq.mp also, here] at there
      cases there
      omega
    rw [split, latest_append, latest_append, rest, ← found, same]
    simp [Saga.latest, own]

theorem Process.Sound.install (sound : proc.Sound o gone server history)
    (durable : Durable o server history) (publishing : proc.publishing = some pub) (done : pub.rest = []) :
    Process.Sound o gone server history { proc with
      partition := proc.partition.install pub.round pub.last
      publishing := none
      sinceSnapshot := proc.sinceSnapshot + pub.round.events.length } := by
  have round := sound.publishing pub publishing
  have lastEv : (proc.partition.install pub.round pub.last).lastEv = pub.last := by
    rw [Partition.install_lastEv]
    split
    · rename_i none
      exact (round.untouched (done.trans (eq_nil_of_length_eq_zero none).symm)).symm
    · rfl
  have grown : pub.round.events.length ≠ 0 → proc.partition.lastEv < pub.last := by
    intro some_
    refine round.grown fun same => some_ ?_
    rw [← same, done]
    rfl
  have later {n : Nat} (old : n ≤ proc.partition.lastEv)
      (since : proc.sinceSnapshot ≠ 0 → n < proc.partition.lastEv)
      (new : proc.sinceSnapshot + pub.round.events.length ≠ 0) : n < pub.last := by
    have grows := round.grows
    by_cases none : pub.round.events.length = 0
    · have := since (by omega)
      omega
    · have := grown none
      omega
  refine ⟨⟨fun id st found => ?_, fun id st found => ?_⟩, fun id => ?_,
    fun _ => lastEv.trans round.last, nofun, fun new => ?_, fun m manifest => ?_, fun s snapshot => ?_⟩
  · rw [Partition.install_get round.indexed] at found
    exact round.keyed id st found
  · rw [Partition.install_get round.indexed] at found
    exact round.round.held id st found
  · obtain ⟨events, whole, told⟩ := round.published
    rw [done, append_nil] at whole
    dsimp only
    rw [Partition.install_get round.indexed, lastEv, round.last, durable.stateAt_last proc.partition.lastEv,
      told, whole, round.indexed.latest, Round.get]
    cases pub.round.overlay.get id with
    | some st => exact .inl rfl
    | none => exact sound.holds id
  · rw [lastEv]
    exact later (Nat.zero_le _) sound.since new
  · obtain ⟨inHi, old, since⟩ := sound.ahead m manifest
    rw [lastEv]
    exact ⟨Nat.le_trans inHi round.watermark, Nat.le_trans old round.grows, later old since⟩
  · have before := sound.snapshot s snapshot
    refine ⟨before.body, Nat.le_trans before.inHi round.watermark, ?_, fun new => ?_, before.event,
      before.held, before.ahead, before.stored, before.listed⟩
    · rw [lastEv]
      exact Nat.le_trans before.lastEv round.grows
    · rw [lastEv]
      exact later before.lastEv before.since new

theorem Process.Sound.prune (sound : proc.Sound o gone server history) (now : Time)
    (drops : ∀ st, prunable st.record.status = true →
      st.record.updatedAt < now - o.terminalRetention → gone st) (idle : proc.publishing = none) :
    Process.Sound o gone server history { proc with partition := proc.partition.prune o now } := by
  have kept (id : String) (st : SagaState)
      (found : (proc.partition.prune o now).sagas.get id = some st) :
      proc.partition.sagas.get id = some st := pruneLoop_get _ _ _ _ id st found
  refine ⟨⟨fun id st found => ?_, fun id st found => ?_⟩, fun id => ?_, sound.idle,
    fun pub publishing => ?_, sound.since, sound.ahead, fun s snapshot => ?_⟩
  · exact sound.partition.keyed id st (kept id st found)
  · exact sound.partition.held id st (kept id st found)
  · have before := sound.holds id
    rcases pruneLoop_cases (now - o.terminalRetention) pruneBatch proc.partition.terminals
      proc.partition.sagas id with same | ⟨none, st, held, ended, old⟩
    · exact same ▸ before
    · rw [held] at before
      refine .inr ⟨none, st, ?_, drops st ended old⟩
      exact (before.resolve_right fun other => nomatch other.1).symm
  · rw [idle] at publishing
    contradiction
  · exact { sound.snapshot s snapshot with }

theorem lastEvent_event (positive : 0 < lastEvent history) :
    ∃ msg ∈ history, msg.event?.isSome = true ∧ msg.seq = lastEvent history := by
  unfold lastEvent at positive ⊢
  cases last : (history.filter (·.event?.isSome)).getLast? with
  | none => simp [last] at positive
  | some msg =>
    obtain ⟨member, event⟩ := mem_filter.mp (mem_of_getLast? last)
    exact ⟨msg, member, event, rfl⟩

/-- The body of a snapshot loads to the sagas of the partition. -/
theorem loadSagas_view {p : Partition} (keyed : ∀ id st, p.sagas.get id = some st → st.record.id = id)
    (id : String) : (loadSagas p.view.sagas).get id = p.sagas.get id := by
  have ids : (p.sagas.pairs.map (·.2)).map (fun st => st.record.id) = p.sagas.pairs.map Prod.fst := by
    rw [List.map_map]
    exact map_congr_left fun pair member => keyed pair.1 pair.2 (Table.mem_pairs.mp member)
  have sorted : p.view.sagas.Perm (p.sagas.pairs.map (·.2)) := mergeSort_perm _ _
  have keys : (p.view.sagas.map fun st => (st.record.id, st)).map Prod.fst =
      p.view.sagas.map fun st => st.record.id := by simp [Function.comp_def]
  cases found : p.sagas.get id with
  | some st =>
    have own := keyed id st found
    refine Table.get_setAll_mem ?_ (mem_map.mpr ⟨st, ?_, by rw [own]⟩)
    · rw [keys, (sorted.map _).nodup_iff, ids]
      exact p.sagas.pairs_nodup
    · exact sorted.mem_iff.mpr (mem_map.mpr ⟨(id, st), Table.mem_pairs.mpr found, rfl⟩)
  | none =>
    refine (Table.get_setAll fun member => ?_).trans (Table.get_empty id)
    rw [keys, (sorted.map _).mem_iff, ids, Table.map_fst_pairs, Table.mem_keys_iff, found] at member
    contradiction

theorem Process.Sound.takeSnapshot (sound : proc.Sound o gone server history)
    (idle : proc.publishing = none) (fresh : proc.sinceSnapshot ≠ 0) :
    Process.Sound o gone server history { proc with
      snapshot := some { view := proc.partition.view, stage := .taken }, sinceSnapshot := 0 } := by
  have lastEv := sound.idle idle
  refine ⟨sound.partition, sound.holds, sound.idle, sound.publishing, fun none => absurd rfl none,
    fun m manifest => ?_, fun s snapshot => ?_⟩
  · obtain ⟨inHi, old, -⟩ := sound.ahead m manifest
    exact ⟨inHi, old, fun none => absurd rfl none⟩
  · cases snapshot
    refine ⟨fun id => ?_, Nat.le_refl _, Nat.le_refl _, fun none => absurd rfl none, ?_,
      fun st member => ?_, fun _ m manifest => ?_, nofun, fun early => absurd rfl early⟩
    · rw [loadSagas_view sound.partition.keyed]
      exact sound.holds id
    · obtain ⟨msg, member, event, seq⟩ := lastEvent_event (lastEv ▸ sound.since fresh)
      exact ⟨msg, member, event, seq.trans lastEv.symm⟩
    · obtain ⟨⟨id, st'⟩, pair, rfl⟩ := mem_map.mp (mem_mergeSort.mp member)
      exact sound.partition.held id _ (Table.mem_pairs.mp pair)
    · obtain ⟨inHi, -, since⟩ := sound.ahead m manifest
      exact ⟨since fresh, inHi⟩

/-- Objects other than the listed body may come and go. -/
theorem Durable.objects {objects : Table String (List SagaState)}
    (durable : Durable o server history)
    (kept : ∀ m, server.manifest = some m → objects.get m.object = some m.sum) :
    Durable o { server with objects } history := by
  refine { durable with listed := fun m manifest => ?_ }
  exact { durable.listed m manifest with stored := kept m manifest }

theorem Deployment.Sound.putObject (sound : d.Sound o gone) (running : d.process = some proc)
    (under : proc.snapshot = some { view, stage := .taken }) :
    Deployment.Sound o gone { d with
      server := { d.server with
        objects := d.server.objects.set (snapshotObject o.k view.lastEv) view.sagas }
      process := some { proc with snapshot := some { view, stage := .stored } } } := by
  have process := sound.process proc running
  have before := process.snapshot _ under
  refine ⟨sound.durable.objects fun m manifest => ?_, sound.told, fun next running => ?_⟩
  · have listed := sound.durable.listed m manifest
    have older := (before.ahead (.inl rfl) m manifest).1
    rw [Table.get_set_ne]
    · exact listed.stored
    · rw [listed.object]
      intro same
      exact absurd (snapshotObject_injective same) (Nat.ne_of_lt older)
  · cases running
    refine ⟨process.partition, process.holds, process.idle, process.publishing, process.since,
      process.ahead, fun s snapshot => ?_⟩
    cases snapshot
    exact { before with
      ahead := fun _ => before.ahead (.inl rfl)
      stored := fun _ => Table.get_set_self _ _ _
      listed := fun _ late => absurd rfl late }

theorem Durable.putManifest (durable : Durable o server history)
    (before : Snapshotting.Sound o gone server history proc { view, stage := .stored }) :
    Durable o { server with manifest := some (view.manifest o) } history := by
  obtain ⟨bound, log, covered⟩ := durable.kept
  refine ⟨durable.ordered, durable.bounds, durable.readable, ⟨bound, log, ?_⟩, fun m manifest => ?_⟩
  · change bound ≤ min (view.inHi + 1) view.lastEv
    rcases covered_cases covered with rfl | ⟨m, manifest, inputs, events⟩
    · exact Nat.zero_le _
    have ahead := before.ahead (.inr rfl) m manifest
    dsimp only at ahead
    omega
  · cases manifest
    exact ⟨rfl, rfl, rfl, rfl, before.stored rfl, before.held, before.event⟩

theorem Deployment.Sound.putManifest (sound : d.Sound o gone) (running : d.process = some proc)
    (under : proc.snapshot = some { view, stage := .stored })
    (next : Process)
    (same : next.partition = proc.partition ∧ next.publishing = proc.publishing ∧
      next.sinceSnapshot = proc.sinceSnapshot)
    (snapshot : ∀ s, next.snapshot = some s → ∃ previous,
      s = { view, stage := .listed previous }) :
    Deployment.Sound o gone { d with
      server := { d.server with manifest := some (view.manifest o) }, process := some next } := by
  have process := sound.process proc running
  have before := process.snapshot _ under
  obtain ⟨partition, publishing, since⟩ := same
  refine ⟨sound.durable.putManifest before, fun m manifest => ?_, fun other running => ?_⟩
  · cases manifest
    exact before.body
  cases running
  refine ⟨partition ▸ process.partition, partition ▸ process.holds, ?_, ?_, ?_, fun m manifest => ?_,
    fun s under => ?_⟩
  · rw [partition, publishing]
    exact process.idle
  · rw [partition, publishing]
    exact process.publishing
  · rw [partition, since]
    exact process.since
  · cases manifest
    rw [partition, since]
    exact ⟨before.inHi, before.lastEv, before.since⟩
  · obtain ⟨previous, rfl⟩ := snapshot s under
    refine ⟨before.body, ?_, ?_, ?_, before.event, before.held, nofun, nofun,
      fun _ _ => ⟨view.manifest o, rfl, rfl, rfl⟩⟩
    · rw [partition]
      exact before.inHi
    · rw [partition]
      exact before.lastEv
    · rw [partition, since]
      exact before.since

/-- A snapshot of the process that is past its manifest, or none. -/
theorem Process.Sound.passed (sound : proc.Sound o gone server history)
    (under : proc.snapshot = some { view, stage }) (late : stage ≠ .taken)
    (later : stage ≠ .stored) (log : List LogMsg) (objects : Table String (List SagaState))
    (next : Option Snapshotting)
    (passed : ∀ s, next = some s → s = { view, stage := .cleaned }) :
    Process.Sound o gone { server with log, objects } history
      { proc with snapshot := next } := by
  have before := sound.snapshot _ under
  refine ⟨sound.partition, sound.holds, sound.idle, sound.publishing, sound.since, sound.ahead,
    fun s under => ?_⟩
  cases passed s under
  exact ⟨before.body, before.inHi, before.lastEv, before.since, before.event, before.held, nofun, nofun,
    fun _ _ => before.listed late later⟩

theorem Deployment.Sound.dropObject (sound : d.Sound o gone) (running : d.process = some proc)
    (under : proc.snapshot = some { view, stage := .listed previous }) :
    Deployment.Sound o gone { d with
      server := { d.server with
        objects := if previous ≠ "" ∧ previous ≠ snapshotObject o.k view.lastEv then
            d.server.objects.remove previous
          else d.server.objects }
      process := some { proc with snapshot := some { view, stage := .cleaned } } } := by
  have process := sound.process proc running
  obtain ⟨m, manifest, lastEv, -⟩ := (process.snapshot _ under).listed nofun nofun
  refine ⟨sound.durable.objects fun other listed => ?_, sound.told, fun next running => ?_⟩
  · cases some.inj (manifest.symm.trans listed)
    have stored := sound.durable.listed m manifest
    split
    · rename_i other
      rw [Table.get_remove_ne]
      · exact stored.stored
      · rw [stored.object, lastEv]
        exact Ne.symm other.2
    · exact stored.stored
  · cases running
    exact process.passed under nofun nofun _ _ _ fun s here => (some.inj here).symm

theorem purgeBound_le (view : SnapshotView) (floors : List Nat) :
    purgeBound view floors ≤ min (view.inHi + 1) view.lastEv := by
  unfold purgeBound
  generalize min (view.inHi + 1) view.lastEv = bound
  induction floors generalizing bound with
  | nil => exact Nat.le_refl _
  | cons floor rest ih => exact Nat.le_trans (ih _) (Nat.min_le_left _ _)

theorem Deployment.Sound.purge (sound : d.Sound o gone) (running : d.process = some proc)
    (under : proc.snapshot = some { view, stage := .cleaned }) (floors : List Nat) :
    Deployment.Sound o gone { d with
      server := { d.server with
        log := d.server.log.filter fun msg => purgeBound view floors ≤ msg.seq }
      process := some { proc with snapshot := none } } := by
  have process := sound.process proc running
  obtain ⟨m, manifest, lastEv, inHi⟩ := (process.snapshot _ under).listed nofun nofun
  refine ⟨⟨sound.durable.ordered, sound.durable.bounds, sound.durable.readable, ?_,
    fun other listed => ?_⟩, sound.told, fun next running => ?_⟩
  · obtain ⟨bound, log, covered⟩ := sound.durable.kept
    have most := purgeBound_le view floors
    refine ⟨max bound (purgeBound view floors), ?_, ?_⟩
    · rw [log, List.filter_filter]
      apply filter_congr
      intro msg _
      rw [Bool.eq_iff_iff]
      simp only [Bool.and_eq_true, decide_eq_true_eq, Nat.max_le]
      exact and_comm
    · rw [manifest] at covered ⊢
      simp only [map_some, getD_some, lastEv, inHi] at covered ⊢
      exact Nat.max_le.mpr ⟨covered, most⟩
  · exact { sound.durable.listed other listed with }
  · cases running
    exact process.passed under nofun nofun _ _ _ nofun

/-- The sagas a replay yields are held, under their own IDs. -/
theorem Reconstructs.held {id : String} (durable : Durable o server history)
    (loaded : Loaded o server history base) (rebuilt : Reconstructs history base r)
    (found : r.sagas.get id = some st) : Held o st ∧ st.record.id = id := by
  rw [rebuilt.sagas id] at found
  split at found
  · rename_i msg last
    have member := mem_of_getLast? (filter_eq_some_iff.mp last).1
    obtain ⟨stored, of⟩ := mem_filter.mp member
    obtain ⟨ev, event, rfl⟩ := map_eq_some_iff.mp found
    obtain ⟨written, readable, rfl⟩ := durable.readable msg stored ev event
    simp only [LogMsg.of, event, any_some, beq_iff_eq] at of
    exact ⟨readable.held, of⟩
  · exact loaded.held id st found

theorem Loaded.holds (durable : Durable o server history) (loaded : Loaded o server history base)
    (told : ∀ m, server.manifest = some m → Holds gone history m.lastEv (loadSagas m.sum)) :
    Holds gone history base.lastEv base.sagas := by
  rw [loaded.sagas, loaded.manifest.1]
  cases manifest : server.manifest with
  | some m => exact told m manifest
  | none =>
    have none : (history.filter fun msg => msg.seq ≤ 0) = [] := by
      simp only [filter_eq_nil_iff, decide_eq_true_eq]
      intro msg member
      have := (durable.bounds msg member).1
      omega
    have empty (id : String) : stateAt history 0 id = Option.none := by
      rw [stateAt, none]
      rfl
    exact fun id => .inl (empty id).symm

theorem Process.Sound.start (durable : Durable o server history)
    (told : ∀ m, server.manifest = some m → Holds gone history m.lastEv (loadSagas m.sum))
    (replayed : replayOnce o server = .ok r) (now : Time) (object : String) :
    Process.Sound o gone server history
      { partition := replayPartition o r now, snapshotObject := object } := by
  obtain ⟨base, loaded⟩ := durable.loads
  obtain ⟨other, same, rebuilt⟩ := durable.replays loaded
  cases Except.ok.inj (replayed.symm.trans same)
  refine ⟨⟨fun id st found => ?_, fun id st found => ?_⟩, rebuilt.holds durable (loaded.holds durable told),
    fun _ => rebuilt.lastEv, nofun, fun none => absurd rfl none, fun m manifest => ?_, nofun⟩
  · exact (rebuilt.held durable loaded found).2
  · exact (rebuilt.held durable loaded found).1
  · obtain ⟨lastEv, inHi⟩ := loaded.manifest
    simp only [manifest, map_some, getD_some] at lastEv inHi
    obtain ⟨msg, member, event, seq⟩ := (durable.listed m manifest).event
    have covered := durable.le_lastEvent member event
    refine ⟨?_, ?_, fun none => absurd rfl none⟩
    · change m.inHi ≤ r.inHi
      rw [rebuilt.inHi, ← inHi]
      exact le_foldl_max _ _ _
    · change m.lastEv ≤ r.lastEv
      rw [rebuilt.lastEv, ← seq]
      exact covered

theorem Deployment.Sound.empty : Deployment.Sound o gone {} :=
  ⟨⟨List.Pairwise.nil, by simp, by simp, ⟨0, rfl, Nat.le_refl 0⟩, nofun⟩, nofun, nofun⟩

theorem Durable.stable (durable : Durable o server history) :
    lastEvent server.log = lastEvent history := by
  obtain ⟨bound, log, covered⟩ := durable.kept
  unfold lastEvent
  rw [log, List.filter_filter]
  simp only [Bool.and_comm]
  rw [← List.filter_filter]
  cases last : (history.filter (·.event?.isSome)).getLast? with
  | none => simp [getLast?_eq_none_iff.mp last]
  | some final =>
    have reached : bound ≤ final.seq := by
      rcases covered_cases covered with rfl | ⟨m, manifest, -, events⟩
      · exact Nat.zero_le _
      obtain ⟨msg, member, event, seq⟩ := (durable.listed m manifest).event
      have latest := durable.le_lastEvent member event
      simp only [lastEvent, last, map_some, getD_some] at latest
      omega
    obtain ⟨before, events⟩ := getLast?_eq_some_iff.mp last
    simp [events, reached]

variable [Digest]

theorem Process.Sound.decide (sound : proc.Sound o gone server history)
    (durable : Durable o server history) (registry : Registry)
    (batch : List InputMsg) (time : 0 < now) (idle : proc.publishing = none) :
    Process.Sound o gone server history { proc with
      partition := (proc.partition.decide o registry batch now).2
      publishing := some
        { round := (proc.partition.decide o registry batch now).1
          rest := (proc.partition.decide o registry batch now).1.events
          last := (proc.partition.decide o registry batch now).2.lastEv } } := by
  have partition := sound.partition
  have round := Partition.decide_sound partition registry batch time
  have indexed := Partition.decide_indexed o registry partition.keyed batch now
  have keyed : (proc.partition.decide o registry batch now).1.Keyed proc.partition := by
    refine Partition.decide_keeps o registry partition.keyed batch now ?_ fun _ _ step => step.keyed
    intro id st found
    exact partition.keyed id st found
  refine ⟨⟨partition.keyed, partition.held⟩, sound.holds, nofun, fun pub publishing => ?_, sound.since,
    sound.ahead, fun s snapshot => ?_⟩
  · cases publishing
    exact ⟨sound.idle idle, Nat.le_refl _, fun same => absurd rfl same, fun _ => rfl,
      Partition.decide_maxIn o registry proc.partition batch now, ⟨round.clock, round.held, round.events⟩, keyed,
      indexed, [], rfl, durable.states_above (Nat.le_of_eq (sound.idle idle).symm)⟩
  · exact { sound.snapshot s snapshot with }

/-- Every round of the run is decided after Go's zero time. -/
def Act.Timed : Act → Prop
  | .decide _ _ now => 0 < now
  | _ => True

/-- What a prune of the run may drop is gone. -/
def Act.Drops (o : Options) (gone : SagaState → Prop) : Act → Prop
  | .prune now => ∀ st, prunable st.record.status = true →
      st.record.updatedAt < now - o.terminalRetention → gone st
  | _ => True

theorem Deployment.Sound.work (sound : d.Sound o gone) (running : d.process = some proc) (act : Act)
    (timed : act.Timed) (drops : act.Drops o gone) : (d.work o proc act).Sound o gone := by
  have process := sound.process proc running
  have become (next : Process) (kept : next.Sound o gone d.server d.history) :
      Deployment.Sound o gone { d with process := some next } :=
    ⟨sound.durable, sound.told, fun other running => some.inj running ▸ kept⟩
  cases act <;> simp only [Deployment.work]
  case decide registry batch now =>
    split
    · exact sound
    · rename_i idle
      exact become _ (process.decide sound.durable registry batch timed idle)
  case publish =>
    split
    · exact sound
    · exact keeps_unless sound (sound.publish running (by assumption))
  case install =>
    split
    · exact sound
    · rename_i publishing
      exact keeps_unless sound fun done => become _ (process.install sound.durable publishing (not_not.mp done))
  case prune now =>
    split
    · exact sound
    · rename_i idle
      exact become _ (by simpa only [idle] using process.prune now drops idle)
  case takeSnapshot =>
    refine keeps_unless sound fun ready => ?_
    simp only [not_or, not_isSome_iff_eq_none] at ready
    exact become _ (process.takeSnapshot ready.1 ready.2.2)
  case putObject =>
    split
    · exact sound.putObject running (by assumption)
    · exact sound
  case putManifest reported =>
    split
    · rename_i view under
      refine sound.putManifest running under _ ?_ fun s snapshot => ?_
      · split <;> exact ⟨rfl, rfl, rfl⟩
      · split at snapshot
        · exact ⟨_, (some.inj snapshot).symm⟩
        · contradiction
    · exact sound
  case dropObject =>
    split
    · exact sound.dropObject running (by assumption)
    · exact sound
  case purge floors =>
    split
    · exact sound.purge running (by assumption) floors
    · exact sound
  case abandonSnapshot => exact become _ { process with snapshot := nofun }
  case crash => exact sound.crash
  all_goals exact sound

theorem Deployment.Sound.step (d : Deployment) (act : Act) (allowed : act.Timed ∧ act.Drops o gone)
    (sound : d.Sound o gone) :
    (d.step o act).Sound o gone := by
  unfold Deployment.step
  split
  · exact sound.arrive _ _ _
  · exact sound.elsewhere _
  · split
    · exact sound
    rename_i r replayed
    split
    · exact sound
    refine ⟨sound.durable, sound.told, fun proc running => ?_⟩
    cases running
    exact .start sound.durable sound.told replayed _ _
  · exact sound.work (by assumption) _ allowed.1 allowed.2
  · exact sound

/-- The sagas that a prune of the run may have dropped: concluded, and last updated before
the retention that ends at the prune. -/
def Pruned (o : Options) (acts : List Act) (st : SagaState) : Prop :=
  prunable st.record.status = true ∧
    ∃ now, Act.prune now ∈ acts ∧ st.record.updatedAt < now - o.terminalRetention

theorem Deployment.run_sound (o : Options) (timed : ∀ act ∈ acts, act.Timed) :
    (run (Deployment.step o) {} acts).Sound o (Pruned o acts) := by
  refine invariant_along Deployment.Sound.step .empty (along_of_forall fun act member => ?_)
  refine ⟨timed act member, ?_⟩
  cases act with
  | prune now => exact fun st ended old => ⟨ended, now, member, old⟩
  | _ => trivial

end steps

namespace Sample

/-- The start is covered by a snapshot; the process stops after the purge, with the
same intent waiting once more. -/
def interrupted : List Act :=
  opening ++ [.takeSnapshot, .putObject, .putManifest true, .dropObject, .purge [],
    .arrive .start intent "inbox", .crash]

end Sample

open Sample

/-- After every history of a partition, wherever it stopped, the log, the manifest and the
snapshot body replay to the last durable events. The body holds the state of each saga's
last event at or before its sequence, the replay that of its last event, save for sagas that
a prune dropped. -/
theorem replay_reconstructs [Digest] (o : Options) (acts : List Act) (timed : ∀ act ∈ acts, act.Timed) :
    let d := run (Deployment.step o) {} acts
    ∃ base r, d.server.snapshot o = .ok base ∧ replayOnce o d.server = .ok r ∧
      Reconstructs d.history base r ∧ lastEvent d.server.log = r.lastEv ∧
      Holds (Pruned o acts) d.history base.lastEv base.sagas ∧
      Holds (Pruned o acts) d.history r.lastEv r.sagas := by
  intro d
  have sound := Deployment.run_sound o timed
  have durable := sound.durable
  obtain ⟨base, loaded⟩ := durable.loads
  obtain ⟨r, replayed, rebuilt⟩ := durable.replays loaded
  have holds := loaded.holds durable sound.told
  exact ⟨base, r, loaded.snapshot, replayed, rebuilt, durable.stable.trans rebuilt.lastEv.symm, holds,
    rebuilt.holds durable holds⟩

theorem replay_reconstructs_interrupted :
    let d := run (@Deployment.step Digest.tail options) {} interrupted
    d.server.log.map LogMsg.seq = [2, 3] ∧
      ∃ base r, d.server.snapshot options = .ok base ∧
        replayOnce options d.server = .ok r ∧ Reconstructs d.history base r ∧
        lastEvent d.server.log = r.lastEv ∧
        Holds (Pruned options interrupted) d.history base.lastEv base.sagas ∧
        Holds (Pruned options interrupted) d.history r.lastEv r.sagas := by
  have timed : ∀ act ∈ interrupted, act.Timed := by
    have later : 0 < now := by decide
    simp [interrupted, opening, Act.Timed, later]
  have rebuilt := @replay_reconstructs Digest.tail options interrupted timed
  exact ⟨by decide +kernel, rebuilt⟩

/-- Every event of every round of a partition passes the decoder as it is written,
whatever watermark its chunk carries. -/
theorem events_readable [Digest] (o : Options) (acts : List Act) (timed : ∀ act ∈ acts, act.Timed)
    (proc : Process) (running : (run (Deployment.step o) {} acts).process = some proc)
    (registry : Registry) (batch : List InputMsg) (now : Time) (time : 0 < now) (watermark : Nat) :
    ∀ ev ∈ (proc.partition.decide o registry batch now).1.events,
      let written := encodeEvent { ev with in_ := watermark }
      decodeEvent o.layout o.k written = .ok written := by
  intro ev member
  have sound := ((Deployment.run_sound o timed).process proc running).partition
  have readable := (Partition.decide_sound sound registry batch time).events ev member
  exact (readable.stamped watermark).decodes

theorem events_readable_first :
    ∃ proc, (run (@Deployment.step Digest.tail options) {} [.start now]).process =
        some proc ∧
      (@Partition.decide Digest.tail options registry proc.partition
        [message 1] now).1.events.length = 1 ∧
      ∀ ev ∈ (@Partition.decide Digest.tail options registry proc.partition
          [message 1] now).1.events,
        decodeEvent options.layout options.k (encodeEvent { ev with in_ := 1 }) =
          .ok (encodeEvent { ev with in_ := 1 }) :=
  ⟨_, rfl, by decide, @events_readable Digest.tail options [.start now]
    (by simp [Act.Timed]) _ rfl registry [message 1] now (by decide) 1⟩

end Roost.Saga
