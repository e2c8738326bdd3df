import RoostCore.Lockstep.Regular

/-! The loops of a tick keep what their steps keep. A property may speak of a match and of
what has been noted of the events so far. -/
namespace Roost.Lockstep
open Go List

namespace Match
variable {σ : Type} {note : σ → Event → σ} {stage : Stage} {limit head : Nat}
  {P : Match → σ → Prop}

/-- What one step of a loop keeps, and what does not depend on the fetch. -/
structure Stable (note : σ → Event → σ) (stage : Stage) (limit head : Nat)
    (P : Match → σ → Prop) : Prop where
  step : ∀ {m after session events seen}, m.Sound limit → m.history.frames ≠ [] →
    Step m stage limit head session after events → P m seen → P after (events.foldl note seen)
  fetch : ∀ {m seen} request, P m seen → P { m with fetch := request } seen

/-- The property inside a loop that started from `base`. -/
structure Kept (base : Match) (limit : Nat) (P : Match → σ → Prop) (m : Match) (seen : σ) :
    Prop where
  alike : m.Alike base
  sound : m.Sound limit
  filled : m.history.frames ≠ []
  holds : P m seen

section
variable {base m after : Match} {session : Nat} {events : List Event} {seen : σ}

theorem Kept.start (sound : base.Sound limit) (filled : base.history.frames ≠ [])
    (holds : P base seen) : Kept base limit P base seen :=
  ⟨rfl, sound, filled, holds⟩

section
variable (stable : Stable note stage limit head P)
include stable

theorem Kept.step (kept : Kept base limit P m seen)
    (step : Step m stage limit head session after events) :
    Kept base limit P after (events.foldl note seen) where
  alike := kept.alike.trans step.alike
  sound := kept.sound.step kept.filled step
  filled := by
    rw [step.alike.get Match.history fun _ _ _ _ => rfl]
    exact kept.filled
  holds := stable.step kept.sound kept.filled step kept.holds

theorem Kept.fetch (kept : Kept base limit P m seen)
    (request : Option SnapshotRequest)
    (allowed : ∀ asked, request = some asked → asked.maxFrame ≤ limit) :
    Kept base limit P { m with fetch := request } seen where
  alike := kept.alike
  sound := { kept.sound with fetch := allowed }
  filled := kept.filled
  holds := stable.fetch request kept.holds

theorem Kept.releaseIdleFetch
    (kept : Kept base limit P m seen) : Kept base limit P m.releaseIdleFetch seen := by
  rw [Match.releaseIdleFetch]
  split
  · exact kept
  · exact kept.fetch stable none nofun

end

theorem each_keeps (loop : Match → Nat → Match × List Event)
    (keeps : ∀ {m session seen}, Kept base limit P m seen →
      Kept base limit P (loop m session).1 ((loop m session).2.foldl note seen))
    (sessions : List Nat) (kept : Kept base limit P m seen) :
    Kept base limit P (each loop m sessions).1 ((each loop m sessions).2.foldl note seen) := by
  have run (sessions : List Nat) (done : Match × List Event)
      (kept : Kept base limit P done.1 (done.2.foldl note seen)) :
      let out := sessions.foldl (fun done session =>
        ((loop done.1 session).1, done.2 ++ (loop done.1 session).2)) done
      Kept base limit P out.1 (out.2.foldl note seen) := by
    induction sessions generalizing done with
    | nil => exact kept
    | cons session rest ih =>
      refine ih (_, done.2 ++ (loop done.1 session).2) ?_
      rw [foldl_append]
      exact keeps kept
  exact run sessions (m, []) kept

theorem collectOne_keeps (before : stage.early) (stable : Stable note stage limit head P)
    (kept : Kept base limit P m seen) : Kept base limit P (m.collectOne input session).1
      ((m.collectOne input session).2.foldl note seen) := by
  rw [collectOne]
  split
  · exact kept
  rename_i state held
  split
  · rename_i send under
    split
    · exact kept
    rename_i result finished
    have shaped := (kept.sound.states session state held).shaped
    have settled := kept.step stable (settleCatchup_step result held under shaped)
    dsimp only
    split
    · have step : Step (m.settleCatchup session state send result).1 stage limit head session _ [] :=
        goLive_step before fun next => settleCatchup_served
      have live := settled.step stable step
      exact live
    · exact settled
  · split
    · exact kept
    rename_i checked
    rw [not_or] at checked
    refine kept.step stable (goLive_step before fun other found => ?_)
    rw [held] at found
    cases found
    exact Option.not_isSome_iff_eq_none.mp checked.2

theorem finishOne_keeps (stable : Stable note stage limit head P) (kept : Kept base limit P m seen) :
    Kept base limit P (m.finishOne input session).1
      ((m.finishOne input session).2.foldl note seen) := by
  rw [finishOne]
  split
  · exact kept
  rename_i state held
  split
  · rename_i send result under finished
    exact kept.step stable
      (settleCatchup_step result held under (kept.sound.states session state held).shaped)
  · exact kept

theorem succ_toNat {n : UInt64} (room : n.toNat + 1 < 2 ^ 64) : (n + 1).toNat = n.toNat + 1 := by
  exact Nat.mod_eq_of_lt room

theorem succ_ne_zero {n : UInt64} (room : n.toNat + 1 < 2 ^ 64) : n + 1 ≠ 0 := by
  intro zero
  have next := succ_toNat room
  rw [zero] at next
  exact absurd next.symm (Nat.succ_ne_zero _)

/-- The sessions that wait for the fetch get their part of it one after the other; none of
them is touched before its turn. -/
theorem applyAll_keeps (stable : Stable note stage limit head P) {sessions : List Nat}
    (offers : ∀ image, result = .ok image → base.Offers limit image) (distinct : sessions.Nodup)
    (waiting : ∀ session ∈ sessions, ∀ state, m.catchups.get session = some state →
      waits state = true) (late : ¬ stage.early)
    (counted : stage.numbered → m.lastTransfer.toNat + sessions.length < 2 ^ 64)
    (kept : Kept base limit P m seen) :
    Kept base limit P (sessions.foldl (fun m session => m.applyOne result session) m) seen := by
  induction sessions generalizing m with
  | nil => exact kept
  | cons session rest ih =>
    rw [nodup_cons] at distinct
    have step : Step m stage limit head session (m.applyOne result session) [] := by
      refine applyOne_step (fun image same => ?_) (waiting session mem_cons_self)
        (fun state held => ?_) late fun numbered => ?_
      · obtain ⟨filled, bounded, frame⟩ := offers image same
        refine ⟨filled, ?_, frame⟩
        rwa [kept.alike.get Match.snapshots fun _ _ _ _ => rfl]
      · have waits := waiting session mem_cons_self state held
        rw [Match.waits] at waits
        cases phase : state.snapshot with
        | none =>
          rw [phase] at waits
          contradiction
        | some transfer =>
          rw [phase] at waits
          exact ((kept.sound.states session state held).waiting phase
            (Option.isNone_iff_eq_none.mp waits)).2
      · have room := counted numbered
        rw [length_cons] at room
        exact succ_ne_zero (by omega)
    refine ih distinct.2 (fun other member state held => ?_) (fun numbered => ?_)
      (kept.step stable step)
    case refine_2 =>
      have room := counted numbered
      rw [length_cons] at room
      rcases step.counter with same | ⟨-, next⟩
      · rw [same]
        omega
      · rw [next, succ_toNat (by omega)]
        omega
    have apart : other ≠ session := by
      rintro rfl
      exact distinct.1 member
    rw [step.others other apart] at held
    exact waiting other (mem_cons_of_mem session member) state held

theorem catchupSessions_nodup (m : Match) : m.catchupSessions.Nodup :=
  (mergeSort_perm _ _).nodup_iff.mpr (Table.pairs_nodup _)

theorem fetchSnapshot_offers (allowed : request.maxFrame ≤ limit)
    (fetched : fetchSnapshot sha256 request ((m.snapshots.map SnapshotSettings.maxBytes).getD 0)
      answer = .ok image) : m.Offers limit image := by
  unfold fetchSnapshot at fetched
  split at fetched
  · contradiction
  split at fetched
  · contradiction
  rename_i small
  split at fetched
  · contradiction
  rename_i legal
  cases fetched
  simp only [not_or] at legal
  refine ⟨fun empty => legal.1 (length_eq_zero_iff.mpr empty), Nat.not_lt.mp small, ?_⟩
  dsimp only
  omega

theorem collectFetch_keeps (stable : Stable note stage limit head P) (sha256 : Bytes → SnapshotDigest)
    (input : TickInput) (late : ¬ stage.early)
    (counted : stage.numbered → m.lastTransfer.toNat + m.catchups.pairs.length < 2 ^ 64) (kept : Kept base limit P m seen) :
    Kept base limit P (m.collectFetch sha256 input).1 seen := by
  rw [collectFetch]
  split
  · rename_i request answer asked finished
    have cleared := kept.fetch stable none nofun
    refine applyAll_keeps stable (fun image fetched => ?_)
      ((catchupSessions_nodup _).filter _) (fun session member state held => ?_) late
      (fun numbered => ?_) cleared
    · obtain ⟨filled, bounded, frame⟩ :=
        fetchSnapshot_offers (kept.sound.fetch request asked) fetched
      refine ⟨filled, ?_, frame⟩
      rwa [← kept.alike.get Match.snapshots fun _ _ _ _ => rfl]
    · have waits := (mem_filter.mp member).2
      rw [held] at waits
      exact waits
    · have room := counted numbered
      refine Nat.lt_of_le_of_lt (Nat.add_le_add_left ?_ _) room
      refine Nat.le_trans (length_filter_le _ _) ?_
      rw [catchupSessions, length_mergeSort, length_map]
  · exact kept

theorem collect_keeps (before : stage.early) (stable : Stable note stage limit head P)
    (kept : Kept base limit P m seen) : Kept base limit P (m.collectCatchups input).1
      ((m.collectCatchups input).2.foldl note seen) :=
  each_keeps (fun m session => m.collectOne input session)
    (fun kept => collectOne_keeps before stable kept) _ kept

theorem pump_keeps (stable : Stable note stage limit (m.servableHead input.committed) P)
    (allowed : m.servableHead input.committed ≤ limit) (late : ¬ stage.early)
    (counted : stage.numbered → m.lastTransfer.toNat + m.catchups.pairs.length < 2 ^ 64)
    (kept : Kept base limit P m seen) : Kept base limit P (m.pumpCatchup sha256 input).1
      ((m.pumpCatchup sha256 input).2.foldl note seen) := by
  rw [pumpCatchup]
  split
  · exact kept
  rw [foldl_append]
  refine each_keeps (fun m session => m.finishOne input session)
    (fun kept => finishOne_keeps stable kept) _ ?_
  have fetched := collectFetch_keeps stable sha256 input late counted kept
  have pumped := each_keeps
    (fun next session => next.pumpOne (m.servableHead input.committed) session)
    (fun kept => kept.step stable pumpOne_step)
    (m.collectFetch sha256 input).1.catchupSessions fetched
  split
  · split
    · exact pumped.fetch stable _ fun asked same => by cases same; exact allowed
    · exact pumped
  · exact pumped.releaseIdleFetch stable

theorem pinOne_keeps (stable : Stable note stage limit head P)
    (kept : Kept base limit P done.game seen) :
    Kept base limit P (pinOne keep floor done session).game seen := by
  rw [pinOne]
  split
  · exact kept
  rename_i state held
  split
  · exact kept
  rename_i pin pinned
  split
  · exact kept
  split
  · have served : state.unservable = none := by
      cases held : state.unservable with
      | none => rfl
      | some failure =>
        rw [recoveryPin, held] at pinned
        contradiction
    have step : Step done.game stage limit head session _ [] :=
      .set held (.refused state.failures .expired served (by decide))
    have failed := kept.step stable step
    exact failed
  · exact kept

theorem pinnedTrim_keeps (stable : Stable note stage limit head P) (settings : SnapshotSettings)
    (keep : Nat) (kept : Kept base limit P m seen) :
    Kept base limit P (m.pinnedTrim settings keep).1 seen := by
  have run (floor : Nat) (sessions : List Nat) (done : Pinning)
      (kept : Kept base limit P done.game seen) :
      Kept base limit P (sessions.foldl (pinOne keep floor) done).game seen := by
    induction sessions generalizing done with
    | nil => exact kept
    | cons session rest ih => exact ih _ (pinOne_keeps stable kept)
  rw [pinnedTrim]
  generalize (if settings.pinFrames % 2 ^ 32 < keep then keep - settings.pinFrames % 2 ^ 32
    else 1) = floor
  split
  · exact (run _ _ { game := m, trim := keep } kept).releaseIdleFetch stable
  · exact run _ _ { game := m, trim := keep } kept

theorem Sound.trimHistory (sound : m.Sound limit) (keep : Nat) : (m.trimHistory keep).Sound limit :=
  { sound with history := sound.history.trimBefore keep }

theorem retainWindow_keeps (stable : Stable note stage limit head P)
    (trim : ∀ {m seen} keep, P m seen → P (trimHistory m keep) seen)
    (kept : Kept base limit P m seen) :
    (m.retainWindow latest).Sound limit ∧ P (m.retainWindow latest) seen := by
  rw [retainWindow]
  split
  · exact ⟨kept.sound, kept.holds⟩
  split
  · exact ⟨kept.sound.trimHistory _, trim _ kept.holds⟩
  split
  · exact ⟨kept.sound.trimHistory _, trim _ kept.holds⟩
  rename_i settings _ _
  have pinned := pinnedTrim_keeps stable settings (latest - m.retain % 2 ^ 32 + 1) kept
  exact ⟨pinned.sound.trimHistory _, trim _ pinned.holds⟩

end

end Match

end Roost.Lockstep
