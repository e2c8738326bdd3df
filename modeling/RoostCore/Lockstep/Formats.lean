import RoostCore.Lockstep.Packets

/-! The wire formats of lockstep: what the encoders accept is decoded as it was, and every
packet of a match is within its budget and accepted by the decoder of its kind. -/
namespace Roost.Lockstep
open Go
open List hiding after all below count head length min

/-- The client with this snapshot limit can decode the message. -/
def Message.Readable (limit : Int) : Message → Prop
  | .page frames => decodeBroadcast (encodeBroadcast frames) = .ok frames
  | .notice failure => decodeCatchupUnservable (encodeRecoveryFailure failure) = .ok failure
  | .chunks transfer image bounds => ∀ bound ∈ bounds,
      ∃ chunk, decodeSnapshotChunk (image.chunk transfer bound.1 bound.2) limit = .ok chunk ∧
        chunk.transfer = transfer ∧ chunk.offset = bound.1 ∧
          chunk.data = (image.snapshot.data.drop bound.1).take (bound.2 - bound.1)

/-- What is sent is within the budget of a datagram and can be decoded. -/
def Event.Readable (bytes limit : Int) : Event → Prop
  | .broadcast _ packet => ((encodeBroadcast packet).length : Int) ≤ bytes ∧
      decodeBroadcast (encodeBroadcast packet) = .ok packet
  | .handed _ message _ _ => message.Readable limit
  | _ => True

namespace Match

/-- What a session in recovery may yet be sent. -/
structure Deliverable (maxBytes : Nat) (state : CatchupState) : Prop where
  notice : ∀ failure, state.unservable = some failure → failure.Fits
  image : ∀ transfer image, state.snapshot = some transfer → transfer.image = some image →
    transfer.transfer ≠ 0 ∧ image.snapshot.data ≠ [] ∧ image.snapshot.data.length ≤ maxBytes

def maxBytes (m : Match) : Nat := (m.snapshots.map SnapshotSettings.maxBytes).getD 0

/-- What a match holds can be sent; `base` is the match as it was built. -/
structure Sendable (base m : Match) : Prop where
  players : m.sequencer.players = base.sequencer.players
  most : m.sequencer.maxInput = base.sequencer.maxInput
  depth : m.depth = base.depth
  batch : m.catchupBatch = base.catchupBatch
  snapshots : m.snapshots = base.snapshots
  pending : m.sequencer.Seated
  kept : ∀ frame ∈ m.history.frames, frame.Seated base.sequencer.players base.sequencer.maxInput
  recent : ∃ pushed, Recent m.encoder m.depth m.sequencer.next pushed ∧
    ∀ frame ∈ pushed, frame.Seated base.sequencer.players base.sequencer.maxInput
  states : ∀ session state, m.catchups.get session = some state → Deliverable base.maxBytes state

/-- What has been checked of a match when it was built. -/
structure Checked (base : Match) (bytes limit : Int) : Prop where
  seats : Seats base.sequencer.players base.sequencer.maxInput
  budget : (worstCase base.depth base.sequencer.players.length base.sequencer.maxInput.toNat : Int) ≤
    bytes
  depth : base.depth ≤ maxBroadcastFrames
  batch : base.catchupBatch ≤ maxBroadcastFrames
  chunks : ∀ settings, base.snapshots = some settings → 0 < settings.chunkBytes
  client : base.maxBytes ≤ snapshotLimit limit

section
variable {base m after : Match} {bytes limit : Int} {stage : Stage} {most head session : Nat}
  {state : CatchupState} {entry : Option CatchupState} {events : List Event}

theorem Deliverable.waits (notice : state.unservable = none)
    (image : ∀ transfer, state.snapshot = some transfer → transfer.image = none) :
    Deliverable size state := by
  refine ⟨fun failure held => ?_, fun transfer picture phase ready => ?_⟩
  · rw [notice] at held
    contradiction
  · rw [image transfer phase] at ready
    contradiction

theorem Deliverable.move (sound : m.Sound most) (regular : Regular m.sequencer.next most state)
    (numbered : stage.numbered) (deliverable : Deliverable m.maxBytes state)
    (moves : Moves m stage most head session state (some new) events) :
    Deliverable m.maxBytes new := by
  have bounded := sound.bounded
  have start := sound.history.start_le sound.live
  have fits (reason : RecoveryFailureReason)
      (trimmed : reason = .historyTrimmed → state.next < m.history.start) :
      CatchupUnservableError.Fits
        { reason, first := state.next, start := m.history.start } := by
    have cursor := regular.cursor
    exact ⟨regular.positive, by dsimp only; omega, by dsimp only; omega, trimmed⟩
  cases moves with
  | chunked send id image bounds transfer result failures under message served phase =>
    refine ⟨deliverable.notice, fun other picture same ready => ?_⟩
    cases same
    exact deliverable.image transfer picture phase ready
  | restored | fellBack =>
    exact ⟨deliverable.notice, nofun⟩
  | given transfer image phase waiting offers counted =>
    refine ⟨deliverable.notice, fun other picture same ready => ?_⟩
    cases same
    cases ready
    exact ⟨counted numbered, offers.filled, offers.bounded⟩
  | refused failures reason served other =>
    refine ⟨fun failure held => ?_, nofun⟩
    cases held
    exact fits reason fun trimmed => absurd trimmed other
  | trimmed failure idle served paging gone made =>
    refine ⟨fun other held => ?_, deliverable.image⟩
    cases held
    rw [made]
    exact fits .historyTrimmed fun _ => gone
  | begun served =>
    exact .waits served fun transfer same => by cases same; rfl
  | _ =>
    exact ⟨deliverable.notice, deliverable.image⟩

theorem ascending_of_ids {frames : List Frame} (ids : frames.map Frame.id = range' first count) :
    frames.Pairwise fun a b => a.id < b.id := by
  have sorted := pairwise_lt_range' (s := first) (n := count)
  rw [← ids] at sorted
  exact pairwise_map.mp sorted

theorem pageLimit_le (allowed : m.pageLimit cursor head = some count) : count ≤ m.catchupBatch := by
  rw [pageLimit] at allowed
  repeat' split at allowed
  all_goals first
    | contradiction
    | (cases allowed; omega)

theorem mem_readRange (member : frame ∈ m.history.readRange first count) :
    frame ∈ m.history.frames := by
  rw [History.readRange] at member
  split at member
  · contradiction
  · exact mem_of_mem_drop (mem_of_mem_take member)

theorem page_readable (sound : m.Sound most) (filled : m.history.frames ≠ [])
    (checked : base.Checked bytes limit) (sendable : base.Sendable m)
    (kept : m.history.start ≤ cursor) (allowed : m.pageLimit cursor head = some count) :
    decodeBroadcast (encodeBroadcast (m.history.readRange cursor count)) =
      .ok (m.history.readRange cursor count) := by
  have ids := sound.history.readRange_ids filled kept count
  refine decodeBroadcast_encodeBroadcast ?_ (fun frame member => ?_) (ascending_of_ids ids)
  · have length := congrArg List.length ids
    rw [length_map, length_range'] at length
    have small := pageLimit_le allowed
    have batch := checked.batch
    rw [← sendable.batch] at batch
    omega
  · exact (sendable.kept frame (mem_readRange member)).fits checked.seats

theorem Moves.readable (sound : m.Sound most) (filled : m.history.frames ≠ [])
    (regular : Regular m.sequencer.next most state) (checked : base.Checked bytes limit)
    (sendable : base.Sendable m) (deliverable : Deliverable base.maxBytes state)
    (moves : Moves m stage most head session state entry events)
    (member : Event.handed s message h start ∈ events) : message.Readable limit := by
  cases moves with
  | notified failure idle unserved =>
    cases mem_singleton.mp member
    exact decode_encodeRecoveryFailure (deliverable.notice failure unserved)
  | trimmed failure idle served paging gone made =>
    cases mem_singleton.mp member
    have bounded := sound.bounded
    have top := sound.history.start_le sound.live
    have cursor := regular.cursor
    refine decode_encodeRecoveryFailure ?_
    rw [made]
    exact ⟨regular.positive, by dsimp only; omega, by dsimp only; omega, fun _ => gone⟩
  | sending transfer image settings message idle served phase ready configured made =>
    cases mem_singleton.mp member
    subst made
    intro bound inside
    obtain ⟨assigned, -, small⟩ := deliverable.image transfer image phase ready
    have positive := checked.chunks settings (sendable.snapshots ▸ configured)
    obtain ⟨less, within⟩ := batchBounds_inside positive inside
    have frame := regular.image transfer image phase ready
    have below := sound.below
    have bounded := sound.bounded
    exact chunk_accepted assigned (by omega) less within (Nat.le_trans small checked.client)
  | paging last count message idle served phase kept allowed read made =>
    cases mem_singleton.mp member
    subst made
    exact page_readable sound filled checked sendable kept allowed
  | _ => simp at member

theorem Sendable.maxBytes (sendable : base.Sendable m) : m.maxBytes = base.maxBytes := by
  rw [Match.maxBytes, sendable.snapshots, Match.maxBytes]

theorem Sendable.step (sendable : base.Sendable m) (sound : m.Sound most)
    (numbered : stage.numbered) (step : Step m stage most head session after events) :
    base.Sendable after := by
  have same {α : Type} (f : Match → α) (blind : ∀ m catchups fetch counter,
      f { m with catchups, fetch, lastTransfer := counter } = f m) :
      f after = f m := step.alike.get f blind
  have sequencer := same Match.sequencer fun _ _ _ _ => rfl
  refine
    { players := by rw [sequencer]; exact sendable.players
      most := by rw [sequencer]; exact sendable.most
      depth := (same Match.depth fun _ _ _ _ => rfl).trans sendable.depth
      batch := (same Match.catchupBatch fun _ _ _ _ => rfl).trans sendable.batch
      snapshots := (same Match.snapshots fun _ _ _ _ => rfl).trans sendable.snapshots
      pending := by rw [sequencer]; exact sendable.pending
      kept := by rw [same Match.history fun _ _ _ _ => rfl]; exact sendable.kept
      recent := by
        rw [sequencer, same Match.encoder fun _ _ _ _ => rfl, same Match.depth fun _ _ _ _ => rfl]
        exact sendable.recent
      states := fun other state held => ?_ }
  by_cases here : other = session
  · subst here
    rcases step.entry with ⟨unchanged, -⟩ | ⟨before, found, moves⟩
    · rw [unchanged] at held
      exact sendable.states other state held
    · rw [held] at moves
      have deliverable := sendable.states other before found
      rw [← sendable.maxBytes] at deliverable ⊢
      exact deliverable.move sound (sound.states other before found) numbered moves
  · rw [step.others other here] at held
    exact sendable.states other state held

/-- The packet of a broadcast is within the budget and can be decoded. -/
theorem packet_readable (checked : base.Checked bytes limit) (sendable : base.Sendable m) :
    Event.Readable bytes limit (.broadcast session (Ring.values m.encoder)) := by
  obtain ⟨pushed, recent, seated⟩ := sendable.recent
  have each : ∀ frame ∈ Ring.values m.encoder,
      frame.Seated base.sequencer.players base.sequencer.maxInput := by
    intro frame member
    rw [recent.holds.values] at member
    exact seated frame (mem_of_mem_drop member)
  have few : (Ring.values m.encoder).length ≤ base.depth := by
    have length := congrArg List.length recent.values
    rw [length_map, length_range'] at length
    have depth := sendable.depth
    omega
  have shallow := checked.depth
  refine ⟨?_, decodeBroadcast_encodeBroadcast (Nat.le_trans few shallow)
    (fun frame member => (each frame member).fits checked.seats) (ascending_of_ids recent.values)⟩
  have size := encodeBroadcast_length checked.seats each few shallow
  have budget := checked.budget
  omega

/-- What has been sent so far can be decoded, and so can what may yet be sent. -/
structure Legible (base : Match) (bytes limit : Int) (m : Match) (seen : List Event) : Prop where
  sendable : base.Sendable m
  readable : ∀ event ∈ seen, event.Readable bytes limit

def record (seen : List Event) (event : Event) : List Event := seen ++ [event]

theorem records (seen events : List Event) : events.foldl record seen = seen ++ events := by
  induction events generalizing seen with
  | nil => exact (append_nil seen).symm
  | cons event rest ih => rw [foldl_cons, ih, record, append_assoc, singleton_append]

theorem Legible.step (checked : base.Checked bytes limit) (sound : m.Sound most)
    (filled : m.history.frames ≠ []) (numbered : stage.numbered)
    (step : Step m stage most head session after events) (legible : base.Legible bytes limit m seen) :
    base.Legible bytes limit after (events.foldl record seen) := by
  rw [records]
  refine ⟨legible.sendable.step sound numbered step,
    forall_mem_append.mpr ⟨legible.readable, fun event now => ?_⟩⟩
  rcases step.entry with ⟨-, none⟩ | ⟨state, held, moves⟩
  · rw [none] at now
    contradiction
  have quiet := moves.quiet event now
  cases event with
  | handed s message h start =>
    exact moves.readable sound filled (sound.states session state held) checked
      legible.sendable (legible.sendable.states session state held) now
  | broadcast => exact quiet.elim
  | _ => trivial

/-- The counter has room for every session in recovery. -/
def Numbered (m : Match) : Prop := m.lastTransfer.toNat + m.catchups.pairs.length < 2 ^ 64
  deriving Decidable

theorem legible_early (checked : base.Checked bytes limit) : Stable record ⟨True, True⟩ most head
      (fun m seen => m.Numbered ∧ base.Legible bytes limit m seen) where
  step := by
    rintro m after session events seen sound filled step ⟨numbered, legible⟩
    refine ⟨?_, legible.step checked sound filled trivial step⟩
    have size := step.size
    rcases step.counter with same | ⟨late, -⟩
    · rw [Numbered] at numbered ⊢
      rw [same]
      omega
    · exact absurd trivial late
  fetch _ both := ⟨both.1, { both.2.sendable with }, both.2.readable⟩

theorem legible_late (checked : base.Checked bytes limit) :
    Stable record ⟨False, True⟩ most head (base.Legible bytes limit) where
  step sound filled step legible := legible.step checked sound filled trivial step
  fetch _ legible := ⟨{ legible.sendable with }, legible.readable⟩

section
variable (sendable : base.Sendable m)
include sendable

theorem Sendable.cut {cut : Match} (sound : m.Sound most)
    (made : m.Cut frame cut) : base.Sendable cut := by
  obtain ⟨seated, pending⟩ := sendable.pending.cuts made.cuts sound.live sound.bounded
  rw [sendable.players, sendable.most] at seated
  obtain ⟨pushed, recent, all⟩ := sendable.recent
  refine
    { players := made.cuts.players.trans sendable.players
      most := made.cuts.maxInput.trans sendable.most
      depth := by rw [made.same]; exact sendable.depth
      batch := by rw [made.same]; exact sendable.batch
      snapshots := by rw [made.same]; exact sendable.snapshots
      pending
      kept := fun other member => ?_
      recent := ⟨_, made.recent sound.live recent, fun other member => ?_⟩
      states := by rw [made.same]; exact sendable.states }
  · have appended := made.appended
    rw [History.append] at appended
    split at appended
    · rw [← Option.some.inj appended, mem_singleton] at member
      exact member ▸ seated
    split at appended
    · contradiction
    rw [← Option.some.inj appended] at member
    rcases mem_snoc.mp member with old | new
    · exact sendable.kept other old
    · exact new ▸ seated
  · rcases mem_snoc.mp member with old | new
    · exact all other old
    · exact new ▸ seated

theorem Sendable.trimHistory (keep : Nat) : base.Sendable (m.trimHistory keep) := by
  refine { sendable with kept := fun frame member => ?_ }
  rw [Match.trimHistory, History.trimBefore] at member
  split at member
  · exact sendable.kept frame member
  · exact sendable.kept frame (mem_of_mem_drop member)

theorem Sendable.submitInput (player : Int) (frame : Nat)
    (payload : Payload) : base.Sendable (m.submitInput player frame payload) := by
  have stores := m.sequencer.submitInput_stores player frame payload
  rw [Match.submitInput]
  split
  · exact sendable
  exact
    { sendable with
      players := stores.players.trans sendable.players
      most := stores.maxInput.trans sendable.most
      pending := sendable.pending.stores stores
      recent := by rw [stores.next]; exact sendable.recent }

theorem Sendable.close : base.Sendable m.close.1 :=
  { sendable with
    states := fun session state held => by rw [Match.close, Table.get_empty] at held; contradiction }

theorem Sendable.setCatchup
    (deliverable : Deliverable base.maxBytes state) : base.Sendable (m.setCatchup session state) := by
  refine { sendable with states := fun other found held => ?_ }
  rw [Match.setCatchup, Table.get_set] at held
  split at held
  · cases held
    exact deliverable
  · exact sendable.states other found held

end

theorem Begins.deliverable {next : CatchupState} (begins : m.Begins state next)
    (served : state.unservable = none) (paging : state.snapshot = none) :
    Deliverable size next := by
  cases begins with
  | pages => exact .waits served fun transfer held => by rw [paging] at held; contradiction
  | snapshot fallback => exact .waits served fun transfer held => by cases held; rfl

theorem Sendable.edit (sendable : base.Sendable m) (edit : m.Edit ask after events) :
    base.Sendable after := by
  cases edit with
  | stay => exact sendable
  | binds sessions spectators owners bound => exact { sendable with }
  | leaves session after drops bound =>
    rw [drops.same]
    refine { sendable with states := fun other state held => ?_ }
    rw [drops.entries] at held
    split at held
    · contradiction
    · exact sendable.states other state held
  | covered => exact sendable
  | repeats => exact sendable
  | opens session first next attached free positive within begins =>
    exact sendable.setCatchup (begins.deliverable rfl rfl)
  | rewinds session first state next attached held served paging positive before begins =>
    exact sendable.setCatchup (begins.deliverable served paging)
  | converts session state attached held served =>
    exact sendable.setCatchup (.waits served fun transfer same => by cases same; rfl)

theorem Edit.readable (edit : m.Edit ask after events) :
    ∀ event ∈ events, event.Readable bytes limit := by
  intro event member
  cases edit <;> simp only [mem_singleton, not_mem_nil] at member <;>
    first | contradiction | (rw [member]; trivial)

theorem tick_legible (checked : base.Checked bytes limit) (sound : m.Sound most)
    (numbered : m.Numbered) (legible : base.Legible bytes limit m seen)
    (ticked : m.tick sha256 input = some (after, events)) :
    after.Sound m.sequencer.next ∧ base.Legible bytes limit after (seen ++ events) := by
  have below := sound.below
  generalize reach : (if m.committed then min m.sequencer.next input.committed
    else m.sequencer.next) = head
  have within : head ≤ m.sequencer.next := by
    rw [← reach]
    split <;> omega
  rw [← records]
  refine tick_keeps sound ticked reach.symm (Nat.le_of_lt below) (Nat.le_refl _) within
    (legible_early checked) (legible_late checked) (fun keep legible => ?_)
    (fun frame cut made whole => ?_) (fun both _ => both.1) (fun whole filled both => ?_)
  · exact ⟨legible.sendable.trimHistory keep, legible.readable⟩
  · refine ⟨?_, legible.sendable.cut sound made, legible.readable⟩
    rw [Numbered, made.same]
    exact numbered
  · rw [records]
    refine ⟨both.2.sendable, forall_mem_append.mpr ⟨both.2.readable, fun event now => ?_⟩⟩
    obtain ⟨session, -, rfl⟩ := mem_map.mp now
    exact packet_readable checked both.2.sendable

end

end Match

/-- A match with everything its sessions saw. -/
structure Transcript where
  game : Match
  events : List Event := []

def Transcript.step (sha256 : Bytes → SnapshotDigest) (t : Transcript) (op : Op) : Transcript :=
  let (game, events) := t.game.perform sha256 op
  { game, events := t.events ++ events }

/-- A tick has transfer numbers left for the sessions in recovery. -/
def Transcript.Numbered (t : Transcript) : Op → Prop
  | .tick _ => t.game.Numbered
  | _ => True

instance (t : Transcript) (op : Op) : Decidable (t.Numbered op) := by
  induction op using Op.casesOn <;> unfold Transcript.Numbered <;> infer_instance

def Transcript.Sound (base : Match) (bytes limit : Int) (t : Transcript) : Prop :=
  ∃ most, t.game.Sound most ∧ base.Legible bytes limit t.game t.events

theorem Transcript.Sound.step (checked : base.Checked bytes limit)
    (sound : Transcript.Sound base bytes limit t) (numbered : t.Numbered op) :
    Transcript.Sound base bytes limit (t.step sha256 op) := by
  obtain ⟨most, shape, legible⟩ := sound
  have grown {events : List Event} (each : ∀ event ∈ events, event.Readable bytes limit) :
      ∀ event ∈ t.events ++ events, event.Readable bytes limit :=
    forall_mem_append.mpr ⟨legible.readable, each⟩
  by_cases edits : op.edits = true
  · have edit : t.game.Edit (t.game.asks op) (t.game.perform sha256 op).1
        (t.game.perform sha256 op).2 := Match.perform_edit shape.live edits
    exact ⟨most, shape.edit edit, legible.sendable.edit edit, grown edit.readable⟩
  cases op with
  | submit player frame payload =>
    exact ⟨most, shape.submitInput player frame payload,
      legible.sendable.submitInput player frame payload, grown nofun⟩
  | trim keep =>
    exact ⟨most, shape.trimHistory keep, legible.sendable.trimHistory keep, grown nofun⟩
  | close =>
    refine ⟨most, shape.close, legible.sendable.close, grown fun event member => ?_⟩
    obtain ⟨session, -, rfl⟩ := mem_map.mp member
    trivial
  | tick input =>
    dsimp only [Transcript.step, Match.perform]
    cases ticked : t.game.tick sha256 input with
    | none => exact ⟨most, shape, legible.sendable, grown nofun⟩
    | some answer => exact ⟨_, Match.tick_legible checked shape numbered legible ticked⟩
  | _ => exact absurd rfl edits

variable {config : MatchConfig}

theorem resolveSettings_chunks (resolved : resolveSettings config retain = .ok settings) :
    0 < settings.chunkBytes := by
  obtain ⟨legal, resolved⟩ := guard_ok resolved
  obtain ⟨-, resolved⟩ := guard_ok resolved
  obtain ⟨-, resolved⟩ := guard_ok resolved
  cases resolved
  dsimp only
  rw [orElse]
  have default : 0 < defaultSnapshotChunkBytes := by decide
  split <;> omega

theorem Made.chunks (made : Made config m) {settings : SnapshotSettings}
    (configured : m.snapshots = some settings) : 0 < settings.chunkBytes := by
  obtain ⟨retain, resolved⟩ := made.settings
  rw [configured] at resolved
  obtain ⟨-, resolved⟩ := guard_ok resolved
  dsimp only at resolved
  generalize (if config.recovery = .unset then _ else config.recovery) = mode at resolved
  split at resolved
  · split at resolved <;> cases resolved
  obtain ⟨-, resolved⟩ := guard_ok resolved
  obtain ⟨other, found, same⟩ := map_ok resolved
  cases same
  exact resolveSettings_chunks found

theorem Made.checked {sender : DatagramSender} (made : Made config m)
    (link : config.datagrams = some sender)
    (budget : datagramBudget config.maxDatagramBytes sender = .ok bytes)
    (int32 : ∀ player ∈ config.sequencer.players, player < 2 ^ 31)
    (client : m.maxBytes ≤ snapshotLimit limit) : m.Checked bytes limit := by
  obtain ⟨players, seats⟩ := newSequencer_seats made.sequencer int32
  obtain ⟨other, found, same, checked, worst⟩ := made.budget
  rw [link] at same
  cases same
  rw [budget] at checked
  cases checked
  refine ⟨seats, players ▸ worst, ?_, made.batch.2, fun settings => made.chunks, client⟩
  rw [made.depth]
  exact (normalizeRedundancyDepth_bounds config.redundancyDepth).2

theorem Made.sendable (made : Made config m) : m.Sendable m := by
  obtain ⟨-, next, pending, -⟩ := newSequencer_shape made.sequencer
  have shape := made.shape
  refine
    { players := rfl, most := rfl, depth := rfl, batch := rfl, snapshots := rfl
      pending := fun frame inputs found => ?_
      kept := by rw [shape]; nofun
      recent := ⟨[], ?_, nofun⟩
      states := fun session state held => ?_ }
  · rw [pending, Table.get_empty] at found
    contradiction
  · obtain ⟨pushed, recent⟩ := made.sound.recent
    rw [next] at recent ⊢
    have none : pushed = [] := map_eq_nil_iff.mp recent.ids
    exact none ▸ recent
  · rw [shape, Table.get_empty] at held
    contradiction

theorem Transcript.Sound.start (made : Made config m) :
    Transcript.Sound m bytes limit { game := m } :=
  ⟨0, made.sound, made.sendable, nofun⟩

/-- A chunk has only the fields its kind carries. -/
structure SnapshotChunk.Canonical (chunk : SnapshotChunk) : Prop where
  first : chunk.first = decide (chunk.offset = 0)
  hash : chunk.hasStateHash = false → chunk.stateHash = 0
  later : chunk.offset ≠ 0 → chunk.frame = 0 ∧ chunk.total = 0 ∧ chunk.hasStateHash = false ∧
    chunk.digest = SnapshotDigest.zero

theorem decode_encodeSnapshotChunk (encoded : encodeSnapshotChunk chunk = .ok data)
    (canonical : chunk.Canonical) (frame : chunk.frame < 2 ^ 32)
    (offset : chunk.offset < snapshotLimit limit) (total : chunk.total ≤ snapshotLimit limit) :
    decodeSnapshotChunk data limit = .ok chunk := by
  obtain ⟨assigned, encoded⟩ := guard_ok encoded
  obtain ⟨filled, encoded⟩ := guard_ok encoded
  obtain ⟨covers, encoded⟩ := guard_ok encoded
  cases encoded
  rw [not_or] at filled
  refine decode_appendSnapshotChunk ⟨assigned, ⟨Int.not_lt.mp filled.1, offset⟩, ?_,
    canonical.first, frame, fun start => ⟨?_, total⟩, canonical.hash, canonical.later⟩
  · exact fun empty => filled.2 (length_eq_zero_iff.mpr empty)
  · exact Int.not_lt.mp fun short => covers ⟨start, .inl short⟩

/-- Frames, commands and chunks are decoded as they were encoded, and everything a match
sends is within its budget and accepted by its decoder. -/
theorem wire_formats :
    (∀ frames : List Frame, frames.length ≤ maxBroadcastFrames → (∀ frame ∈ frames, frame.Fits) →
      frames.Pairwise (fun a b => a.id < b.id) →
        decodeBroadcast (encodeBroadcast frames) = .ok frames) ∧
    (∀ (command : Command) (data : Bytes), encodeCommand command = .ok data →
      decodeCommand data = .ok command) ∧
    (∀ (chunk : SnapshotChunk) (data : Bytes) (limit : Int), encodeSnapshotChunk chunk = .ok data →
      chunk.Canonical → chunk.frame < 2 ^ 32 → chunk.offset < snapshotLimit limit →
        chunk.total ≤ snapshotLimit limit → decodeSnapshotChunk data limit = .ok chunk) ∧
    ∀ (config : MatchConfig) (m : Match) (sender : DatagramSender) (bytes limit : Int)
      (sha256 : Bytes → SnapshotDigest) (ops : List Op), newMatch config = .ok m →
      config.datagrams = some sender →
      datagramBudget config.maxDatagramBytes sender = .ok bytes →
      (∀ player ∈ config.sequencer.players, player < 2 ^ 31) →
      m.maxBytes ≤ snapshotLimit limit →
      Along (Transcript.step sha256) Transcript.Numbered { game := m } ops →
        ∀ event ∈ (run (Transcript.step sha256) { game := m } ops).events,
          event.Readable bytes limit := by
  refine ⟨fun frames => decodeBroadcast_encodeBroadcast, fun command data =>
    decodeCommand_encodeCommand, fun chunk data limit => decode_encodeSnapshotChunk, ?_⟩
  intro config m sender bytes limit sha256 ops built link budget int32 client numbered
  have made := newMatch_made built
  have checked := made.checked link budget int32 client
  obtain ⟨most, -, legible⟩ := invariant_along
    (fun t op ok sound => Transcript.Sound.step checked sound ok)
    (Transcript.Sound.start made) numbered
  exact legible.readable

namespace Sample

/-- The session of a seat is sent a snapshot of frame 4 and the frames after it. -/
def restores : List Op :=
  [.attach 7 1, .submit 7 1 [5], quick none, quick none, quick none, quick none, .catchup 7 1,
    quick none, quick (some (.ok { frame := 4, data := [1, 2, 3] })), quick none, quick none]

end Sample

/-- The last part at a session that is restored from a snapshot. -/
theorem wire_formats_restored : newMatch Sample.recovering = .ok Sample.game ∧
      (run (Transcript.step Sample.digest) { game := Sample.game } Sample.restores).events.length = 11 ∧
      ∀ event ∈ (run (Transcript.step Sample.digest) { game := Sample.game } Sample.restores).events,
        event.Readable defaultMaxDatagramBytes 0 := by
  have built : newMatch Sample.recovering = .ok Sample.game := rfl
  exact ⟨built, by decide +kernel, wire_formats.2.2.2 _ _ {} _ 0 _ _ built rfl rfl (by decide)
    (by decide) (by decide +kernel)⟩

/-- The encoder accepts a later chunk with a frame, which the packet does not carry. -/
theorem later_chunk_loses_frame :
    let chunk : SnapshotChunk := { transfer := 1, offset := 1, frame := 5, data := [0] }
    ∃ data, encodeSnapshotChunk chunk = .ok data ∧ chunk.offset < snapshotLimit 0 ∧
      chunk.total ≤ snapshotLimit 0 ∧ decodeSnapshotChunk data 0 ≠ .ok chunk := by
  refine ⟨[0xCA, 1, 1, 1, 0], by decide +kernel, by decide, by decide, by decide +kernel⟩

end Roost.Lockstep
