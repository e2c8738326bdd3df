import RoostCore.Lockstep.Recovering
import RoostCore.Lockstep.Tick

/-! The courses of a match: every operation keeps the match and the ledger together. -/
namespace Roost.Lockstep
open Go List Ledger

namespace Match
variable {m after : Match} {l : Ledger} {limit head : Nat} {committed : Bool}

/-- What holds inside a tick, while `extra` is still to be broadcast. -/
structure Aligned (committed : Bool) (extra : Match → List Nat) (head : Nat) (m : Match)
    (l : Ledger) : Prop where
  committed : m.committed = committed
  follows : m.Follows (extra m) l
  reading : ∀ c ∈ l.reading, head ≤ c

def packetIds (m : Match) : List Nat := (Ring.values m.encoder).map Frame.id

theorem packetIds_eq (sound : m.Sound limit) :
    m.packetIds = range' (1 + (m.sequencer.next - 1 - m.depth))
      (m.sequencer.next - 1 - (m.sequencer.next - 1 - m.depth)) := by
  obtain ⟨pushed, recent⟩ := sound.recent
  exact recent.values

theorem packetIds_getLast (sound : m.Sound limit) (later : 1 < m.sequencer.next) :
    m.packetIds.getLast? = some (m.sequencer.next - 1) := by
  obtain ⟨pushed, recent⟩ := sound.recent
  have room : 0 < m.depth := recent.cells ▸ recent.holds.room
  rw [packetIds_eq sound, getLast?_range']
  split
  · omega
  · congr 1
    omega

theorem aligned_stable (blind : ∀ {m after : Match}, after.Alike m → extra after = extra m)
    (near : ∀ {m : Match}, m.Sound head → m.history.frames ≠ [] → stage.early → ∀ cursor id,
      m.history.latest < cursor + m.depth → cursor ≤ id → 0 < id → id < m.sequencer.next →
        id ∈ extra m) : Stable note stage head head (Aligned committed extra head) where
  step := by
    intro m after session events seen sound filled step aligned
    refine ⟨?_, ?_, ?_⟩
    · rw [← aligned.committed]
      exact step.alike.get Match.committed fun _ _ _ _ => rfl
    · rw [blind step.alike]
      exact aligned.follows.step sound filled (near sound filled) (Nat.le_refl _) aligned.reading step
    · rw [notes_reading]
      exact aligned.reading
  fetch := by
    intro m seen request aligned
    have same : extra { m with fetch := request } = extra m := blind rfl
    refine ⟨aligned.committed, ?_, aligned.reading⟩
    rw [same]
    exact { aligned.follows with }

/-- Before the broadcast a session may count on the packet. -/
theorem aligned_early :
    Stable note ⟨True, False⟩ head head (Aligned committed packetIds head) := by
  refine aligned_stable (fun alike => alike.get packetIds fun _ _ _ _ => rfl) ?_
  intro m sound filled _ cursor id near low positive high
  have latest := sound.history.latest filled
  rw [packetIds_eq sound, mem_range'_1]
  omega

theorem aligned_late :
    Stable note ⟨False, False⟩ head head (Aligned committed (fun _ => []) head) :=
  aligned_stable (fun _ => rfl) fun _ _ absurd => absurd.elim

/-- A packet is of no concern to a session in recovery. -/
theorem Owed.recovering (owed : Owed extra top (some state) episode) :
    Owed other top' (some state) episode := by
  cases episode with
  | none => exact owed
  | some ep => exact owed

/-- A session that is broadcast to has everything up to the last frame. -/
theorem Follows.broadcast (follows : m.Follows m.packetIds l) (sound : m.Sound limit)
    (later : 1 < m.sequencer.next) (caught : m.catchups.get session = none) :
    m.Follows m.packetIds (l.note (.broadcast session (Ring.values m.encoder))) := by
  have ended : (l.note (.broadcast session (Ring.values m.encoder))).episodes.get session = none := by
    rw [note_get]
    exact if_pos rfl
  refine follows.change session rfl (fun _ _ => rfl) (fun other distinct => ?_) (fun r member => ?_)
    (append_nil _) (fun _ _ attached => attached) ?_ fun open_ => ?_
  · rw [note_get]
    exact if_neg distinct
  · rcases mem_append.mp member with old | now
    · exact follows.gapless r old
    have owed := follows.owed session
    rw [returned] at now
    rw [caught] at owed
    cases open_ : l.episodes.get session with
    | none =>
      rw [open_] at now
      contradiction
    | some ep =>
      rw [open_] at now owed
      cases mem_singleton.mp now
      refine ⟨_, packetIds_getLast sound later, fun id low high => ?_⟩
      exact owed id low (by omega)
  · rw [caught, ended]
    trivial
  · rw [ended] at open_
    contradiction

/-- After the broadcast nothing is owed to the sessions that got it. -/
theorem Follows.turn (follows : m.Follows m.packetIds l) (sound : m.Sound limit)
    (later : 1 < m.sequencer.next) : m.Follows [] (m.broadcasts.foldl note l) := by
  have all (sessions : List Nat) (l : Ledger)
      (caught : ∀ session ∈ sessions, m.catchups.get session = none)
      (follows : m.Follows m.packetIds l) :
      m.Follows m.packetIds ((sessions.map fun session =>
        Event.broadcast session (Ring.values m.encoder)).foldl note l) := by
    induction sessions generalizing l with
    | nil => exact follows
    | cons session rest ih =>
      exact ih _ (fun other member => caught other (mem_cons_of_mem session member))
        (follows.broadcast sound later (caught session mem_cons_self))
  rw [broadcasts]
  have done := all (m.broadcastOrder.filter fun session => (m.catchups.get session).isNone) l
    (fun session member => Option.isNone_iff_eq_none.mp (mem_filter.mp member).2) follows
  refine ⟨fun session => ?_, done.attached, done.gapless, done.gated⟩
  have owed := done.owed session
  cases caught : m.catchups.get session with
  | some state =>
    rw [caught] at owed
    exact owed.recovering
  | none =>
    -- whoever is attached and not in recovery was just broadcast to
    have closed : ((map (fun session => Event.broadcast session (Ring.values m.encoder))
        (m.broadcastOrder.filter fun session => (m.catchups.get session).isNone)).foldl
          note l).episodes.get session = none := by
      rw [all_ended (fun _ => rfl) fun _ _ => rfl]
      split
      · rfl
      rename_i absent
      cases open_ : l.episodes.get session with
      | none => rfl
      | some ep =>
        refine absurd (mem_filter.mpr ⟨mem_broadcastOrder (follows.attached session ?_), ?_⟩)
          absent
        · rw [open_]
          rfl
        · rw [caught]
          rfl
    rw [closed]
    trivial

/-- Until the broadcast the new frame is owed to everybody. -/
theorem Good.cut {cut : Match} (good : m.Good committed limit l) (made : m.Cut frame cut)
    (whole : cut.Sound head) : cut.Follows cut.packetIds l := by
  have next := made.cuts.next
  have live := good.sound.live
  have last := packetIds_getLast whole (by omega)
  have catchups : cut.catchups = m.catchups := by rw [made.same]
  rw [next, Nat.add_sub_cancel] at last
  refine ⟨fun session => ?_, fun session open_ => ?_, good.follows.gapless, good.follows.gated⟩
  · have owed := good.follows.owed session
    rw [catchups, next]
    cases state : m.catchups.get session with
    | some recovery =>
      rw [state] at owed
      exact owed.recovering
    | none =>
      rw [state] at owed
      cases open_ : l.episodes.get session with
      | none => trivial
      | some ep =>
        rw [open_] at owed
        intro id low high
        rcases Nat.lt_succ_iff_lt_or_eq.mp high with old | new
        · exact .inl ((owed id low old).resolve_right not_mem_nil)
        · rw [new]
          exact .inr (mem_of_getLast? last)
  · have attached := good.follows.attached session open_
    rw [Attached, made.same]
    exact attached

theorem tick_good (good : m.Good committed limit l)
    (rising : committed = true → limit ≤ input.committed)
    (ticked : m.tick sha256 input = some (after, events)) :
    ∃ head, (committed = true → head ≤ input.committed) ∧
      after.Good committed head (events.foldl note
        { l with reading := if committed then some input.committed else none }) := by
  have below := good.sound.below
  generalize reach : (if m.committed then min m.sequencer.next input.committed
    else m.sequencer.next) = head
  have bounds : limit ≤ head ∧ (committed = true → head ≤ input.committed) := by
    rw [← reach, good.committed]
    cases committed with
    | true =>
      have := rising rfl
      simp only [if_true]
      omega
    | false =>
      refine ⟨?_, nofun⟩
      simp only [Bool.false_eq_true, if_false]
      omega
  have below' : head ≤ m.sequencer.next := by
    rw [← reach]
    split <;> omega
  have reading : ∀ c ∈ (if committed then some input.committed else none), head ≤ c := by
    intro c held
    cases committed with
    | true =>
      cases held
      exact bounds.2 rfl
    | false => contradiction
  generalize (if committed then some input.committed else none) = present at reading ⊢
  have early : Stable note ⟨True, False⟩ head head (Aligned committed packetIds head) :=
    aligned_early
  have late : Stable note ⟨False, False⟩ head head (Aligned committed (fun _ => []) head) :=
    aligned_late
  have kept : after.Sound head ∧ Aligned committed (fun _ => []) head after
      (events.foldl note { l with reading := present }) := by
    refine tick_keeps good.sound ticked reach.symm bounds.1 below' (Nat.le_refl _) early late
      (fun keep aligned => ?_) (fun frame cut made whole => ?_) (fun _ => False.elim)
      (fun whole filled aligned => ?_)
    · exact ⟨aligned.committed, { aligned.follows with }, aligned.reading⟩
    · have follows := good.cut made whole
      refine ⟨?_, { follows with }, reading⟩
      rw [made.same]
      exact good.committed
    · have reach := whole.history.reach filled
      have some := length_pos_iff.mpr filled
      refine ⟨aligned.committed, aligned.follows.turn whole (by omega), ?_⟩
      rw [notes_reading]
      exact aligned.reading
  exact ⟨head, bounds.2, kept.2.committed, kept.1, kept.2.follows⟩

end Match

/-- A match, its ledger, and the last reading of the committed frame. -/
structure Course where
  game : Match
  ledger : Ledger := {}
  reading : Nat := 0

namespace Course

def step (sha256 : Bytes → SnapshotDigest) (c : Course) (op : Op) : Course :=
  let (game, events) := c.game.perform sha256 op
  let reading :=
    match op with
    | .tick input => input.committed
    | _ => c.reading
  { game
    ledger := events.foldl note
      { c.ledger with reading := if c.game.committed then some reading else none }
    reading }

/-- The committed frame never goes back. -/
def Rises (c : Course) : Op → Prop
  | .tick input => c.game.committed = true → c.reading ≤ input.committed
  | _ => True

/-- No request starts before the cursor of its session while that waits for a snapshot
with paging to fall back to. -/
def Forward (c : Course) (op : Op) : Prop :=
  ∀ ask ∈ c.game.asks op, c.game.Keeps ask.1 ask.2
  deriving Decidable

instance (c : Course) (op : Op) : Decidable (c.Rises op) := by
  cases op <;> unfold Rises <;> infer_instance

/-- The match and the ledger agree, and nothing that was fetched is ahead of the last
reading. -/
def Sound (committed : Bool) (c : Course) : Prop :=
  ∃ limit, (committed = true → limit ≤ c.reading) ∧ c.game.Good committed limit c.ledger

variable {sha256 : Bytes → SnapshotDigest} {committed : Bool} {c : Course}

theorem Sound.step (sound : Sound committed c) (rises : c.Rises op) (forward : c.Forward op) :
    Sound committed (c.step sha256 op) := by
  obtain ⟨limit, within, good⟩ := sound
  have fresh (reading : Option Nat) : c.game.Good committed limit { c.ledger with reading } :=
    ⟨good.committed, good.sound, { good.follows with }⟩
  by_cases edits : op.edits = true
  · refine ⟨limit, ?_, (fresh _).edit (Match.perform_edit good.sound.live edits)
      fun session first asked => forward (session, first) asked⟩
    cases op with
    | tick => contradiction
    | _ => exact within
  cases op with
  | submit player frame payload =>
    exact ⟨limit, within, Match.submitInput_good (fresh _) player frame payload⟩
  | trim keep => exact ⟨limit, within, Match.trimHistory_good (fresh _) keep⟩
  | close => exact ⟨limit, within, Match.close_good (fresh _)⟩
  | tick input =>
    have rising (reads : committed = true) : limit ≤ input.committed :=
      Nat.le_trans (within reads) (rises (good.committed.trans reads))
    dsimp only [Course.step, Match.perform]
    rw [good.committed]
    cases ticked : c.game.tick sha256 input with
    | none => exact ⟨limit, rising, fresh _⟩
    | some answer => exact Match.tick_good good rising ticked
  | _ => exact absurd rfl edits

end Course

/-- What `newMatch` has checked and what it returns. -/
structure Made (config : MatchConfig) (m : Match) : Prop where
  sequencer : newSequencer config.sequencer = .ok m.sequencer
  budget : ∃ sender bytes, config.datagrams = some sender ∧
    datagramBudget config.maxDatagramBytes sender = .ok bytes ∧
    (worstCase m.depth config.sequencer.players.length m.sequencer.maxInput.toNat : Int) ≤ bytes
  depth : m.depth = normalizeRedundancyDepth config.redundancyDepth
  batch : 1 < m.catchupBatch ∧ m.catchupBatch ≤ maxBroadcastFrames
  settings : ∃ retain, resolveRecovery config retain = .ok (m.recovery, m.snapshots)
  shape : m = { sequencer := m.sequencer, encoder := newRedundantEncoder config.redundancyDepth
                depth := m.depth, catchupBatch := m.catchupBatch, catchupMax := m.catchupMax
                retain := m.retain, reliable := m.reliable, recovery := m.recovery
                snapshots := m.snapshots, committed := config.committed }

theorem newMatch_made (built : newMatch config = .ok m) : Made config m := by
  obtain ⟨datagrams, sender, built⟩ := bind_ok built
  obtain ⟨sequencer, legal, built⟩ := bind_ok built
  obtain ⟨bytes, budget, built⟩ := bind_ok built
  obtain ⟨fits, built⟩ := guard_ok built
  generalize chosen : (if config.catchupBatchFrames ≤ 0 then 32
    else config.catchupBatchFrames.toNat) = batch at built
  obtain ⟨several, built⟩ := guard_ok built
  obtain ⟨retain, -, built⟩ := bind_ok built
  obtain ⟨mode, resolved, built⟩ := bind_ok built
  cases built
  have sent : config.datagrams = some datagrams := by
    cases found : config.datagrams with
    | none => simp [found] at sender
    | some other => simpa [found] using sender
  have positive : 0 < batch := by
    rw [← chosen]
    split <;> omega
  have most : maxBroadcastFrames = 64 := rfl
  exact
    { sequencer := mapError_ok legal
      budget := ⟨datagrams, bytes, sent, budget, Int.not_lt.mp fits⟩
      depth := rfl
      batch := by
        dsimp only
        omega
      settings := ⟨retain, resolved⟩
      shape := rfl }

theorem Made.sound (made : Made config m) : m.Sound 0 := by
  obtain ⟨-, next, -, -⟩ := newSequencer_shape made.sequencer
  have room := (normalizeRedundancyDepth_bounds config.redundancyDepth).1
  have batch := made.batch.1
  have depth := made.depth
  rw [made.shape]
  refine
    { live := ?_, bounded := ?_, batch := Nat.lt_of_succ_lt batch, below := ?_
      history := ?_, recent := ?_, states := fun session state held => ?_, fetch := nofun }
  all_goals dsimp only; rw [next]
  · exact Nat.one_pos
  · decide
  · exact Nat.one_pos
  · exact ⟨rfl, nofun, fun _ => Nat.zero_le _⟩
  · exact ⟨[], Ring.holds_empty (by simpa using room), length_replicate.trans depth.symm, rfl⟩
  · contradiction

theorem Course.Sound.start (made : Made config m) :
    Course.Sound config.committed { game := m } := by
  refine ⟨0, fun _ => Nat.zero_le _, ?_, made.sound, fun session => ?_, nofun, nofun, nofun⟩
  · rw [made.shape]
  · rw [made.shape, Table.get_empty, Table.get_empty]
    trivial

/-- In every course with readings that never go back in which no request starts before the
cursor of a session that waits for a snapshot with paging to fall back to: a session that
is broadcast to after a recovery has every frame from its base on, and nothing is sent
ahead of the committed frame or from before the history. -/
theorem recovery_gapless (sha256 : Bytes → SnapshotDigest) {config : MatchConfig} {m : Match}
    (built : newMatch config = .ok m) {ops : List Op}
    (allowed : Along (Course.step sha256) (fun c op => c.Rises op ∧ c.Forward op) { game := m } ops) :
    let c := run (Course.step sha256) { game := m } ops
    (∀ r ∈ c.ledger.returns, r.Gapless) ∧ ∀ h ∈ c.ledger.handed, h.Gated := by
  obtain ⟨limit, -, good⟩ := invariant_along
    (fun c op ok sound => Course.Sound.step sound ok.1 ok.2)
    (Course.Sound.start (newMatch_made built)) allowed
  exact ⟨good.follows.gapless, good.follows.gated⟩

namespace Sample

/-- One seat, packets of one frame, and snapshots for whoever is more than a frame behind. -/
def recovering : MatchConfig where
  sequencer := { players := [7], submitWindow := 0, maxInputBytes := 1 }
  redundancyDepth := 1
  catchupBatchFrames := 2
  historyRetainFrames := -1
  datagrams := some {}
  reliable := some {}
  snapshots := { provider := true, autoCatchupMaxFrames := 1 }

def game : Match where
  sequencer := { players := [7], window := 2, maxInput := 1 }
  encoder := newRedundantEncoder 1
  depth := 1
  catchupBatch := 2
  catchupMax := 8
  retain := 0
  reliable := true
  recovery := .auto
  snapshots := some { autoMax := 1, maxBytes := defaultMaxSnapshotBytes
                      chunkBytes := defaultSnapshotChunkBytes
                      budget := defaultSnapshotUnpacedBytesPerTick, pinFrames := 0 }
  committed := false

def digest (_ : Bytes) : SnapshotDigest := ⟨replicate snapshotDigestBytes 0, rfl⟩

/-- A tick in which every send succeeds. -/
def quick (fetched : Option (Except FetchFailure Snapshot)) : Op :=
  .tick { collected := fun _ => some .ok, fetched, committed := 0
          finished := fun _ => some .ok }

/-- A session that is two frames behind asks for a snapshot, the source has none, and the
session is paged. -/
def fallsBack (requests : List Op) : List Op :=
  [.attach 7 1, quick none, quick none, quick none, quick none] ++ requests ++
    [quick none, quick (some (.error .unavailable)), quick none, quick none, quick none]

end Sample

open Sample

/-- The theorem at a session that falls back to paging. -/
theorem recovery_gapless_paged : newMatch recovering = .ok game ∧
      Along (Course.step digest) (fun c op => c.Rises op ∧ c.Forward op)
        { game } (fallsBack [.catchup 7 3]) ∧
      let c := run (Course.step digest) { game }
        (fallsBack [.catchup 7 3])
      c.ledger.returns = [{ base := 3, covered := [3, 4, 5, 6, 7, 8], packet := [9] }] ∧
        (∀ r ∈ c.ledger.returns, r.Gapless) ∧ ∀ h ∈ c.ledger.handed, h.Gated := by
  have allowed : Along (Course.step digest) (fun c op => c.Rises op ∧ c.Forward op)
      { game } (fallsBack [.catchup 7 3]) := by decide +kernel
  have built : newMatch recovering = .ok game := rfl
  exact ⟨built, allowed, by decide +kernel, recovery_gapless digest built allowed⟩

/-- The session asks again, from frame 1, while the snapshot is fetched. The request is
accepted and changes nothing, the fetch fails, and the pages start at frame 3. -/
theorem fallback_leaves_hole : newMatch recovering = .ok game ∧
      Along (Course.step digest) Course.Rises { game }
        (fallsBack [.catchup 7 3, .catchup 7 1]) ∧
      ∃ r ∈ (run (Course.step digest) { game }
        (fallsBack [.catchup 7 3, .catchup 7 1])).ledger.returns, ¬ r.Gapless := by
  have returns : (run (Course.step digest) { game }
      (fallsBack [.catchup 7 3, .catchup 7 1])).ledger.returns =
        [{ base := 1, covered := [3, 4, 5, 6, 7, 8], packet := [9] }] := by decide +kernel
  refine ⟨rfl, by decide +kernel, _, returns ▸ mem_singleton.mpr rfl, ?_⟩
  rintro ⟨latest, last, all⟩
  cases last
  exact absurd (all 1 (Nat.le_refl 1) (by decide)) (by decide)

end Roost.Lockstep
