import RoostCore.Lockstep.Command
import RoostCore.Lockstep.Course

/-! What a match sends can be decoded. Frames hold inputs of seats within the limits the
configuration was checked against, notices and chunks hold what their decoders ask for. -/
namespace Roost.Lockstep
open Go List

/-- A frame as a match with these seats cuts it. -/
structure Frame.Seated (players : List Int) (most : Int) (frame : Frame) : Prop where
  positive : 0 < frame.id
  bounded : frame.id < 2 ^ 32
  ascending : frame.inputs.Pairwise fun a b => a.player < b.player
  inputs : ∀ input ∈ frame.inputs,
    input.player ∈ players ∧ (input.payload.length : Int) ≤ most

/-- Seats and payload limit that `newSequencer` lets through; seats are `int32`. -/
structure Seats (players : List Int) (most : Int) : Prop where
  seats : ∀ player ∈ players, 0 ≤ player ∧ player < 2 ^ 31
  few : players.length ≤ maxFrameInputs
  most : most ≤ maxInputPayloadBytes

section
variable {players : List Int} {most : Int} {frame : Frame}

theorem Frame.Seated.count (seated : frame.Seated players most) :
    frame.inputs.length ≤ players.length := by
  have distinct : (frame.inputs.map Input.player).Nodup :=
    pairwise_map.mpr (seated.ascending.imp fun less same => by omega)
  have inside : frame.inputs.map Input.player ⊆ players := by
    intro player member
    obtain ⟨input, held, rfl⟩ := mem_map.mp member
    exact (seated.inputs input held).1
  rw [← length_map Input.player]
  exact (subperm_of_subset distinct inside).length_le

theorem Frame.Seated.fits (seated : frame.Seated players most) (seats : Seats players most) :
    frame.Fits := by
  refine ⟨seated.positive, seated.bounded, Nat.le_trans seated.count seats.few,
    fun input member => ?_⟩
  obtain ⟨inside, short⟩ := seated.inputs input member
  have player := seats.seats input.player inside
  have limit := seats.most
  exact ⟨by omega, player.2, by omega⟩

theorem checkSeats_nonneg (legal : checkSeats seen rest = .ok ()) :
    ∀ player ∈ rest, 0 ≤ player := by
  induction rest generalizing seen with
  | nil => nofun
  | cons head tail ih =>
    obtain ⟨positive, legal⟩ := guard_ok legal
    obtain ⟨-, legal⟩ := guard_ok legal
    intro player member
    rcases mem_cons.mp member with rfl | later
    · exact Int.not_lt.mp positive
    · exact ih legal player later

theorem newSequencer_seats (legal : newSequencer config = .ok s)
    (int32 : ∀ player ∈ config.players, player < 2 ^ 31) :
    s.players = config.players ∧ Seats s.players s.maxInput := by
  obtain ⟨-, legal⟩ := guard_ok legal
  obtain ⟨-, legal⟩ := guard_ok legal
  obtain ⟨payload, legal⟩ := guard_ok legal
  obtain ⟨few, legal⟩ := guard_ok legal
  obtain ⟨⟨⟩, seats, legal⟩ := bind_ok legal
  cases legal
  rw [not_or] at payload
  refine ⟨rfl, ⟨fun player member => ⟨checkSeats_nonneg seats player member,
    int32 player member⟩, Nat.not_lt.mp few, Int.not_lt.mp payload.2⟩⟩

theorem length_flatMap_le {write : α → Bytes} {values : List α}
    (each : ∀ value ∈ values, (write value).length ≤ size) :
    (values.flatMap write).length ≤ values.length * size := by
  induction values with
  | nil => simp
  | cons head tail ih =>
    have first := each head mem_cons_self
    have rest := ih fun value member => each value (mem_cons_of_mem head member)
    rw [flatMap_cons, length_append, length_cons, Nat.succ_mul]
    omega

theorem uvarint_length_le_five (bounded : n < 2 ^ 32) : (uvarint n).length ≤ 5 :=
  uvarint_length_le n 4 (Nat.lt_trans bounded (by decide))

theorem Frame.Seated.length (seated : frame.Seated players most) (seats : Seats players most) :
    (writeFrame frame).length ≤ (5 + 5) + players.length * ((5 + 5) + most.toNat) := by
  have count := seated.count
  have few := seats.few
  have limit : maxFrameInputs = 256 := rfl
  have head := uvarint_length_le_five seated.bounded
  have size : (uvarint frame.inputs.length).length ≤ 5 := uvarint_length_le_five (by omega)
  have inputs : (frame.inputs.flatMap writeInput).length ≤
      frame.inputs.length * ((5 + 5) + most.toNat) := by
    refine length_flatMap_le fun input member => ?_
    obtain ⟨-, short⟩ := seated.inputs input member
    have top := seats.most
    have cap : maxInputPayloadBytes = 1024 := rfl
    have code := uvarint_length_le_five (playerCode_lt input.player)
    have length : (uvarint input.payload.length).length ≤ 5 := uvarint_length_le_five (by omega)
    rw [writeInput, length_append, length_append]
    omega
  have scaled := Nat.mul_le_mul_right ((5 + 5) + most.toNat) count
  rw [writeFrame, length_append, length_append]
  omega

/-- A broadcast stays within the bound the configuration was checked against. -/
theorem encodeBroadcast_length (seats : Seats players most)
    (seated : ∀ frame ∈ frames, frame.Seated players most) (few : frames.length ≤ depth)
    (shallow : depth ≤ maxBroadcastFrames) :
    (encodeBroadcast frames).length ≤ worstCase depth players.length most.toNat := by
  have limit : maxBroadcastFrames = 64 := rfl
  have count : (uvarint frames.length).length ≤ 5 := uvarint_length_le_five (by omega)
  have body := length_flatMap_le fun frame member => (seated frame member).length seats
  have scaled := Nat.mul_le_mul_right ((5 + 5) + players.length * ((5 + 5) + most.toNat)) few
  rw [encodeBroadcast, worstCase, length_cons, length_cons, length_append]
  omega

end

namespace Sequencer
variable {s after : Sequencer} {player : Int} {payload : Payload} {frame : Frame}

/-- The inputs that wait are those of seats and within the limit. -/
def Seated (s : Sequencer) : Prop :=
  ∀ frame inputs, s.pending.get frame = some inputs → ∀ player input,
    inputs.get player = some input → player ∈ s.players ∧ (input.payload.length : Int) ≤ s.maxInput

theorem Seated.inputsOf (seated : s.Seated) {frame : Nat}
    (held : (s.inputsOf frame).get player = some input) :
    player ∈ s.players ∧ (input.payload.length : Int) ≤ s.maxInput := by
  rw [Sequencer.inputsOf] at held
  cases found : s.pending.get frame with
  | none =>
    rw [found, Option.getD_none, Table.get_empty] at held
    contradiction
  | some inputs =>
    rw [found] at held
    exact seated frame inputs found player input held

theorem Seated.stores (seated : s.Seated) (stores : s.Stores player payload after) :
    after.Seated := by
  intro frame inputs found seat input held
  rw [stores.players, stores.maxInput]
  rcases stores.pending with same | ⟨known, short, target, folded, stored⟩
  · rw [same] at found
    exact seated frame inputs found seat input held
  rw [stored, Table.get_set] at found
  split at found
  · cases found
    rw [Table.get_set] at held
    split at held
    · rename_i same
      cases held
      rw [same]
      exact ⟨contains_iff_mem.mp known, short⟩
    · exact seated.inputsOf held
  · exact seated frame inputs found seat input held

theorem Seated.cuts (seated : s.Seated) (cuts : s.Cuts frame after) (live : 0 < s.next)
    (bounded : s.next < 2 ^ 32) : frame.Seated s.players s.maxInput ∧ after.Seated := by
  refine ⟨⟨cuts.id ▸ live, cuts.id ▸ bounded, cuts.ascending, fun input member => ?_⟩,
    fun other inputs found => ?_⟩
  · obtain ⟨pending, held, same⟩ := Option.map_eq_some_iff.mp ((cuts.inputs _ _).mp member)
    rw [← same]
    exact seated.inputsOf held
  · rw [cuts.players, cuts.maxInput]
    by_cases now : other = s.next
    · rw [now] at found
      exact seated s.next inputs (cuts.cut inputs found).1
    · rw [cuts.others other now] at found
      exact seated other inputs found

end Sequencer

/-- The bounds of a batch lie one after the other inside the data. -/
theorem batchBounds_inside (some : 0 < chunkBytes)
    (member : bound ∈ batchBounds total chunkBytes budget fuel offset written) :
    bound.1 < bound.2 ∧ bound.2 ≤ total := by
  induction fuel generalizing offset written with
  | zero => contradiction
  | succ fuel ih =>
    rw [batchBounds] at member
    split at member
    · rcases mem_cons.mp member with rfl | later
      · omega
      · exact ih later
    · contradiction

/-- A chunk of an image the fetch has let through is accepted by a receiver whose limit
the image keeps to. -/
theorem chunk_accepted {image : SnapshotImage} (assigned : transfer ≠ 0)
    (frame : image.snapshot.frame < 2 ^ 32) (inside : offset < stop)
    (within : stop ≤ image.snapshot.data.length)
    (small : image.snapshot.data.length ≤ snapshotLimit limit) :
    ∃ chunk, decodeSnapshotChunk (image.chunk transfer offset stop) limit = .ok chunk ∧
      chunk.transfer = transfer ∧ chunk.offset = offset ∧
        chunk.data = (image.snapshot.data.drop offset).take (stop - offset) := by
  generalize piece : (image.snapshot.data.drop offset).take (stop - offset) = data
  have length : data.length = stop - offset := by
    rw [← piece, length_take, length_drop]
    omega
  have filled : data ≠ [] := by
    rintro rfl
    rw [length_nil] at length
    omega
  by_cases start : offset = 0
  · -- The decoder sees the header without the hash that is not sent.
    let chunk : SnapshotChunk :=
      { transfer, offset, first := true, frame := image.snapshot.frame
        total := image.snapshot.data.length
        stateHash := if image.snapshot.hasStateHash then image.snapshot.stateHash else 0
        hasStateHash := image.snapshot.hasStateHash, digest := image.digest, data }
    have fits : chunk.Fits (snapshotLimit limit) := by
      refine ⟨assigned, ⟨?_, ?_⟩, filled, ?_, frame, fun _ => ⟨?_, ?_⟩, fun bare => ?_,
        fun later => ?_⟩
      · exact Int.natCast_nonneg offset
      · change (offset : Int) < _
        omega
      · simp [chunk, start]
      · change (data.length : Int) ≤ (image.snapshot.data.length : Int)
        omega
      · exact Int.ofNat_le.mpr small
      · change image.snapshot.hasStateHash = false at bare
        simp [chunk, bare]
      · exact absurd (congrArg Int.ofNat start) later
    refine ⟨chunk, ?_, rfl, rfl, rfl⟩
    rw [← decode_appendSnapshotChunk fits]
    congr 1
    rw [SnapshotImage.chunk, if_pos start, piece]
    simp only [appendSnapshotChunk, appendChunkHeader, appendStateHash, chunk]
    cases image.snapshot.hasStateHash <;> rfl
  · let chunk : SnapshotChunk := { transfer, offset, data }
    have fits : chunk.Fits (snapshotLimit limit) := by
      have later : chunk.offset ≠ 0 := by
        change (offset : Int) ≠ 0
        omega
      refine ⟨assigned, ⟨?_, ?_⟩, filled, ?_, Nat.two_pow_pos 32, fun zero => absurd zero later,
        fun _ => rfl, fun _ => ⟨rfl, rfl, rfl, rfl⟩⟩
      · exact Int.natCast_nonneg offset
      · change (offset : Int) < _
        omega
      · exact (decide_eq_false later).symm
    refine ⟨chunk, ?_, rfl, rfl, rfl⟩
    rw [SnapshotImage.chunk, if_neg start, piece]
    exact decode_appendSnapshotChunk fits

end Roost.Lockstep
