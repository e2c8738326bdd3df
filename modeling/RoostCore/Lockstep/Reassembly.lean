import Mathlib.Data.List.Induction
import RoostCore.Lockstep.Assembler
import RoostCore.Lockstep.Sequencing

/-! A client gets a gapless prefix of the server's frames. Packets may be lost, repeated
and reordered; what the assembler holds and has released comes from the server's stream,
and the released part is a run of consecutive frames. -/
namespace Roost.Lockstep
open Go List Option

/-- The frames a match has cut so far. -/
structure Stream where
  frames : List Frame
  ids : frames.map Frame.id = range' 1 frames.length
  bounded : frames.length < 2 ^ 32 - 1
  fit : ∀ frame ∈ frames, frame.Fits

/-- An encoder that was given all the frames. -/
def RedundantEncoder.feed (e : RedundantEncoder) (frames : List Frame) : RedundantEncoder :=
  frames.foldl (fun e frame => (e.push frame).1) e

/-- The packets a match sends: the broadcast of a frame, and the catch-up pages, which
`CatchupBatchFrames` keeps to `MaxBroadcastFrames`. -/
inductive Stream.Sends (server : Stream) : Bytes → Prop where
  | push (depth : Int) (earlier : List Frame) (frame : Frame)
      (cut : earlier ++ [frame] <+: server.frames) :
      Sends server (((newRedundantEncoder depth).feed earlier).push frame).2
  | page (frames : List Frame) (consecutive : frames <:+: server.frames)
      (few : frames.length ≤ maxBroadcastFrames) : Sends server (encodeBroadcast frames)

theorem RedundantEncoder.feed_holds (depth : Int) (frames : List Frame) :
    Ring.Holds ((newRedundantEncoder depth).feed frames) frames ∧
      ((newRedundantEncoder depth).feed frames).cells.length = normalizeRedundancyDepth depth := by
  induction frames using reverseRecOn with
  | nil =>
    have room := (normalizeRedundancyDepth_bounds depth).1
    exact ⟨Ring.holds_empty (by simpa using room), length_replicate⟩
  | append_singleton earlier frame ih =>
    obtain ⟨holds, length⟩ := ih
    rw [RedundantEncoder.feed, foldl_append]
    exact ⟨holds.push frame, length_set.trans length⟩

theorem RedundantEncoder.push_packet (depth : Int) (earlier : List Frame) (frame : Frame) :
    (((newRedundantEncoder depth).feed earlier).push frame).2 = encodeBroadcast
      ((earlier ++ [frame]).drop ((earlier ++ [frame]).length - normalizeRedundancyDepth depth)) := by
  obtain ⟨holds, length⟩ := RedundantEncoder.feed_holds depth earlier
  have pushed := holds.push frame
  rw [RedundantEncoder.push, pushed.values]
  have same : (Ring.push ((newRedundantEncoder depth).feed earlier) frame).cells.length =
      normalizeRedundancyDepth depth := length_set.trans length
  rw [same]

namespace Stream
variable {server : Stream}

theorem ascending (server : Stream) : server.frames.Pairwise fun a b => a.id < b.id := by
  have sorted : (server.frames.map Frame.id).Pairwise (· < ·) := by
    rw [server.ids]
    exact pairwise_lt_range'
  exact pairwise_map.mp sorted

theorem id_bounds (member : frame ∈ server.frames) : 0 < frame.id ∧ frame.id < 2 ^ 32 - 1 := by
  have listed := mem_map_of_mem (f := Frame.id) member
  rw [server.ids, mem_range'_1] at listed
  have := server.bounded
  omega

theorem Sends.decoded (sends : server.Sends packet) :
    ∃ frames, packet = encodeBroadcast frames ∧ frames <:+: server.frames ∧
      decodeBroadcast packet = .ok frames := by
  have readable {frames : List Frame} (consecutive : frames <:+: server.frames)
      (few : frames.length ≤ maxBroadcastFrames) :
      decodeBroadcast (encodeBroadcast frames) = .ok frames :=
    decodeBroadcast_encodeBroadcast few
      (fun frame member => server.fit frame (consecutive.subset member))
      (server.ascending.sublist consecutive.sublist)
  cases sends with
  | page frames consecutive few => exact ⟨frames, rfl, consecutive, readable consecutive few⟩
  | push depth earlier frame cut =>
    rw [RedundantEncoder.push_packet]
    have most := (normalizeRedundancyDepth_bounds depth).2
    have consecutive := (drop_suffix ((earlier ++ [frame]).length -
      normalizeRedundancyDepth depth) (earlier ++ [frame])).isInfix.trans cut.isInfix
    refine ⟨_, rfl, consecutive, readable consecutive ?_⟩
    rw [length_drop]
    omega

end Stream

/-- The buffer holds frames of the server that are not before `low`. -/
def FrameAssembler.Buffers (server : Stream) (a : FrameAssembler) (low : Nat) : Prop :=
  ∀ id frame, a.buffer.get id = some frame →
    low ≤ id ∧ frame.id = id ∧ frame ∈ server.frames

structure Assembles (server : Stream) (a : FrameAssembler) : Prop where
  inactive : a.snapshots.active = false
  applied : a.unapplied = none
  buffers : a.Buffers server (a.next + 1)
  room : a.buffer.pairs.length ≤ a.maxBuffer

/-- The assembler released a run of the server's frames and forgot no other. -/
structure Releases (server : Stream) (a : FrameAssembler) (released : List Frame)
    (b : FrameAssembler) : Prop where
  frames : ∀ frame ∈ released, frame ∈ server.frames
  ids : released.map Frame.id = range' a.next released.length
  next : b.next = a.next + released.length
  kept : ∀ id, (a.buffer.get id).isSome → id < b.next ∨ (b.buffer.get id).isSome
  limit : b.maxBuffer = a.maxBuffer
  snapshots : b.snapshots = a.snapshots
  unapplied : b.unapplied = a.unapplied

namespace Releases
variable {server : Stream} {a b c : FrameAssembler} {first second : List Frame}

theorem none (same : b.next = a.next) (kept : ∀ id, (a.buffer.get id).isSome →
      (b.buffer.get id).isSome) (limit : b.maxBuffer = a.maxBuffer)
    (snapshots : b.snapshots = a.snapshots) (unapplied : b.unapplied = a.unapplied) :
    Releases server a [] b :=
  ⟨nofun, rfl, same, fun id held => .inr (kept id held), limit, snapshots, unapplied⟩

theorem append (head : Releases server a first b) (tail : Releases server b second c) :
    Releases server a (first ++ second) c where
  frames frame member := (mem_append.mp member).elim (head.frames frame) (tail.frames frame)
  ids := by
    rw [map_append, head.ids, tail.ids, head.next, range'_append_1, length_append]
  next := by
    rw [tail.next, head.next, length_append, Nat.add_assoc]
  kept id held := by
    have later := tail.next
    rcases head.kept id held with passed | kept
    · exact .inl (by omega)
    · exact tail.kept id kept
  limit := tail.limit.trans head.limit
  snapshots := tail.snapshots.trans head.snapshots
  unapplied := tail.unapplied.trans head.unapplied

end Releases

namespace FrameAssembler
variable {server : Stream} {a : FrameAssembler}

/-- Releasing the awaited frame moves on by one: frame IDs do not wrap in a stream. -/
theorem bump_next (live : a.next < 2 ^ 32 - 1) : a.bump.next = a.next + 1 :=
  Nat.mod_eq_of_lt (by omega)

theorem drain_stops (buffers : a.Buffers server a.next) (absent : a.buffer.get a.next = none) :
    Releases server a [] a ∧ a.Buffers server (a.next + 1) := by
  refine ⟨.none rfl (fun _ => id) rfl rfl rfl, fun id frame held => ?_⟩
  obtain ⟨low, rest⟩ := buffers id frame held
  have later : id ≠ a.next := by
    rintro rfl
    rw [absent] at held
    contradiction
  exact ⟨by omega, rest⟩

theorem drain_takes (buffers : a.Buffers server a.next) (found : a.buffer.get a.next = some frame) :
    let b := { a with buffer := a.buffer.remove a.next }.bump
    Releases server a [frame] b ∧ b.Buffers server b.next := by
  intro b
  obtain ⟨-, named, member⟩ := buffers a.next frame found
  have live : a.next < 2 ^ 32 - 1 := named ▸ (Stream.id_bounds member).2
  have moved : b.next = a.next + 1 :=
    bump_next (a := { a with buffer := a.buffer.remove a.next }) live
  have others (id : Nat) (other : id ≠ a.next) : b.buffer.get id = a.buffer.get id :=
    Table.get_remove_ne _ other
  constructor
  · refine ⟨?_, ?_, moved, fun id held => ?_, rfl, rfl, rfl⟩
    · intro released only
      rwa [mem_singleton.mp only]
    · simp [named]
    · by_cases here : id = a.next
      · exact .inl (by omega)
      · exact .inr (by rwa [others id here])
  · intro id held bound
    by_cases here : id = a.next
    · rw [here] at bound
      exact absurd bound (by simp [b, bump])
    · rw [others id here] at bound
      obtain ⟨low, rest⟩ := buffers id held bound
      exact ⟨by omega, rest⟩

theorem drainFor_releases (fuel : Nat) (enough : a.buffer.pairs.length ≤ fuel)
    (buffers : a.Buffers server a.next) :
    Releases server a (drainFor fuel a).2 (drainFor fuel a).1 ∧
      (drainFor fuel a).1.Buffers server ((drainFor fuel a).1.next + 1) ∧
      (drainFor fuel a).1.buffer.pairs.length ≤ a.buffer.pairs.length := by
  induction fuel generalizing a with
  | zero =>
    obtain ⟨releases, strict⟩ := drain_stops buffers (Table.get_of_empty (by omega) _)
    exact ⟨releases, strict, Nat.le_refl _⟩
  | succ fuel ih =>
    rw [drainFor]
    cases found : a.buffer.get a.next with
    | none =>
      obtain ⟨releases, strict⟩ := drain_stops buffers found
      exact ⟨releases, strict, Nat.le_refl _⟩
    | some frame =>
      obtain ⟨one, inner⟩ := drain_takes buffers found
      have shorter := Table.length_remove found
      have fewer : { a with buffer := a.buffer.remove a.next }.bump.buffer.pairs.length ≤ fuel := by
        rw [bump]
        dsimp only
        omega
      obtain ⟨more, strict, size⟩ := ih fewer inner
      refine ⟨one.append more, strict, Nat.le_trans size ?_⟩
      rw [bump]
      dsimp only
      omega

theorem drain_releases (buffers : a.Buffers server a.next) :
    Releases server a a.drain.2 a.drain.1 ∧ a.drain.1.Buffers server (a.drain.1.next + 1) ∧
      a.drain.1.buffer.pairs.length ≤ a.buffer.pairs.length :=
  drainFor_releases _ (Nat.le_refl _) buffers

end FrameAssembler

/-- What the assembler does with some of the server's frames: without an error none of
them is forgotten, and the awaited one is always released. -/
structure Ingests (server : Stream) (a : FrameAssembler) (frames : List Frame)
    (result : FrameAssembler × List Frame × Option ReceiveError) : Prop where
  releases : Releases server a result.2.1 result.1
  assembles : Assembles server result.1
  delivered : result.2.2 = none → ∀ frame ∈ frames,
    frame.id < result.1.next ∨ (result.1.buffer.get frame.id).isSome
  closes : ∀ frame ∈ frames, frame.id = a.next → frame ∈ result.2.1

namespace Ingests
variable {server : Stream} {a b : FrameAssembler} {frame : Frame} {frames head : List Frame}
  {result : FrameAssembler × List Frame × Option ReceiveError}

theorem cons (first : Releases server a head b)
    (seen : frame.id < b.next ∨ (b.buffer.get frame.id).isSome)
    (closes : ∀ f ∈ frame :: frames, f.id = a.next → f ∈ head ++ result.2.1)
    (tail : Ingests server b frames result) :
    Ingests server a (frame :: frames) (result.1, head ++ result.2.1, result.2.2) where
  releases := first.append tail.releases
  assembles := tail.assembles
  delivered clean f member := by
    rcases mem_cons.mp member with rfl | later
    · have moved := tail.releases.next
      rcases seen with passed | held
      · exact .inl (by dsimp only; omega)
      · exact tail.releases.kept f.id held
    · exact tail.delivered clean f later
  closes := closes

/-- A frame that is not the awaited one leaves the awaited one to the frames after it. -/
theorem skip (assembles : Assembles server b) (next : b.next = a.next)
    (kept : ∀ id, (a.buffer.get id).isSome → (b.buffer.get id).isSome)
    (limit : b.maxBuffer = a.maxBuffer) (snapshots : b.snapshots = a.snapshots)
    (unapplied : b.unapplied = a.unapplied) (other : frame.id ≠ a.next)
    (seen : frame.id < b.next ∨ (b.buffer.get frame.id).isSome)
    (tail : Assembles server b → Ingests server b frames result) :
    Ingests server a (frame :: frames) result := by
  have rest := tail assembles
  have first : Releases server a [] b := .none next kept limit snapshots unapplied
  refine cons first seen ?_ rest
  intro f member awaited
  rcases mem_cons.mp member with rfl | later
  · exact absurd awaited other
  · exact rest.closes f later (awaited.trans next.symm)

end Ingests

theorem FrameAssembler.ingest_ingests (assembles : Assembles server a)
    (known : ∀ frame ∈ frames, frame ∈ server.frames)
    (ascending : frames.Pairwise fun a b => a.id < b.id) :
    Ingests server a frames (a.ingest frames) := by
  induction frames generalizing a with
  | nil => exact ⟨.none rfl (fun _ => id) rfl rfl rfl, assembles, nofun, nofun⟩
  | cons frame rest ih =>
    rw [pairwise_cons] at ascending
    have later (b : FrameAssembler) (assembles : Assembles server b) :
        Ingests server b rest (b.ingest rest) :=
      ih assembles (fun f member => known f (mem_cons_of_mem frame member)) ascending.2
    have member := known frame mem_cons_self
    have same : Assembles server { a with duplicates := a.duplicates + 1 } :=
      { assembles with }
    rw [ingest]
    split
    · rename_i passed
      exact .skip same rfl (fun _ => id) rfl rfl rfl (Nat.ne_of_lt passed) (.inl passed) (later _)
    split
    · rename_i awaited
      have live : a.next < 2 ^ 32 - 1 := awaited ▸ (Stream.id_bounds member).2
      have moved := bump_next live
      have one : Releases server a [frame] a.bump := by
        refine ⟨?_, by simp [awaited], moved, fun id held => .inr held, rfl, rfl, rfl⟩
        intro released only
        rwa [mem_singleton.mp only]
      have buffers : a.bump.Buffers server a.bump.next := by
        rw [moved]
        exact assembles.buffers
      obtain ⟨drained, strict, size⟩ := drain_releases buffers
      have whole : Releases server a (frame :: a.bump.drain.2) a.bump.drain.1 :=
        one.append drained
      have after : Assembles server a.bump.drain.1 := by
        refine ⟨?_, ?_, strict, ?_⟩
        · rw [whole.snapshots, assembles.inactive]
        · rw [whole.unapplied, assembles.applied]
        · rw [whole.limit]
          exact Nat.le_trans size assembles.room
      refine Ingests.cons whole ?_ ?_ (later _ after)
      · have := whole.next
        rw [length_cons] at this
        exact .inl (by omega)
      · intro f member named
        rcases mem_cons.mp member with rfl | follows
        · exact mem_cons_self
        · have := ascending.1 f follows
          omega
    · rename_i other
      split
      · rename_i held
        exact .skip same rfl (fun _ => id) rfl rfl rfl other (.inr held) (later _)
      rename_i absent
      have fresh := not_isSome_iff_eq_none.mp absent
      split
      · refine ⟨.none rfl (fun _ => id) rfl rfl rfl, assembles, nofun, fun f member named => ?_⟩
        rcases mem_cons.mp member with rfl | follows
        · exact absurd named other
        · have := ascending.1 f follows
          omega
      · refine .skip (b := { a with buffer := a.buffer.set frame.id frame, healed := a.healed + 1 })
          ?_ rfl ?_ rfl rfl rfl other ?_ (later _)
        · refine ⟨assembles.inactive, assembles.applied, fun id held found => ?_, ?_⟩
          · dsimp only at found ⊢
            rw [Table.get_set] at found
            split at found
            · rename_i here
              cases found
              exact ⟨by omega, here.symm, member⟩
            · exact assembles.buffers id held found
          · dsimp only
            rw [Table.length_set fresh]
            omega
        · intro id held
          rw [Table.get_set]
          split
          · rfl
          · exact held
        · exact .inr (by simp)

section client
variable (sha256 : Bytes → SnapshotDigest)

variable {server : Stream}

/-- A packet of the server is decoded and its frames are ingested. -/
theorem Stream.Sends.receive {frames : List Frame} (sends : server.Sends packet)
    (assembles : Assembles server a) (decoded : decodeBroadcast packet = .ok frames) :
    a.receive sha256 packet =
        ((a.ingest frames).1, { frames := (a.ingest frames).2.1 }, (a.ingest frames).2.2) ∧
      Ingests server a frames (a.ingest frames) := by
  obtain ⟨sent, rfl, consecutive, reads⟩ := sends.decoded
  obtain rfl : sent = frames := Except.ok.inj (reads.symm.trans decoded)
  constructor
  · have notice : isCatchupNotice (encodeBroadcast sent) = false := by
      simp [isCatchupNotice, encodeBroadcast, wireMagic, noticeMagic]
    have chunk : isSnapshotChunk (encodeBroadcast sent) = false := by
      simp [isSnapshotChunk, encodeBroadcast, wireMagic, snapshotMagic]
    simp [FrameAssembler.receive, FrameAssembler.ingestFrames, assembles.applied,
      assembles.inactive, notice, chunk, decoded]
  · exact FrameAssembler.ingest_ingests assembles (fun frame member => consecutive.subset member)
      (server.ascending.sublist consecutive.sublist)

/-- A client, with what happened since the start or the last snapshot: the frame expected
first, the frames released, the frames delivered, and whether a call was refused. -/
structure Client where
  asm : FrameAssembler
  first : Nat := 1
  released : List Frame := []
  delivered : List Nat := []
  refused : Bool := false

inductive Client.Event where
  | deliver (packet : Bytes)
  | resume (frame : Nat)

def Client.step (c : Client) : Client.Event → Client
  | .deliver packet =>
      let (asm, delivery, err) := c.asm.receive sha256 packet
      let frames := (decodeBroadcast packet).toOption.getD []
      { c with
        asm := asm, released := c.released ++ delivery.frames
        delivered := c.delivered ++ frames.map Frame.id, refused := c.refused || err.isSome }
  | .resume frame =>
      { asm := c.asm.resumeAfterSnapshot frame, first := (frame + 1) % 2 ^ 32 }

structure Client.Sound (server : Stream) (limit : Nat) (c : Client) : Prop where
  assembles : Assembles server c.asm
  limit : c.asm.maxBuffer = limit
  frames : ∀ frame ∈ c.released, frame ∈ server.frames
  ids : c.released.map Frame.id = range' c.first c.released.length
  next : c.asm.next = c.first + c.released.length
  held : c.refused = false → ∀ id ∈ c.delivered,
    id < c.asm.next ∨ (c.asm.buffer.get id).isSome

theorem Client.Sound.deliver {limit : Nat} {c : Client} (sound : c.Sound server limit)
    (sends : server.Sends packet) : (c.step sha256 (.deliver packet)).Sound server limit := by
  obtain ⟨frames, -, -, decoded⟩ := sends.decoded
  obtain ⟨receives, ingests⟩ := sends.receive sha256 sound.assembles decoded
  have moved := ingests.releases.next
  rw [Client.step, receives, decoded]
  refine
    { assembles := ingests.assembles
      limit := ingests.releases.limit.trans sound.limit
      frames := fun frame member => ?_
      ids := ?_
      next := ?_
      held := fun clean id member => ?_ }
  · exact (mem_append.mp member).elim (sound.frames frame) (ingests.releases.frames frame)
  · rw [map_append, sound.ids, ingests.releases.ids, sound.next, range'_append_1,
      length_append]
  · rw [moved, sound.next, length_append, Nat.add_assoc]
  · dsimp only at clean member ⊢
    rw [Bool.or_eq_false_iff, isSome_eq_false_iff, isNone_iff_eq_none] at clean
    rcases mem_append.mp member with earlier | now
    · rcases sound.held clean.1 id earlier with passed | buffered
      · exact .inl (by omega)
      · exact ingests.releases.kept id buffered
    · obtain ⟨frame, listed, rfl⟩ := mem_map.mp now
      exact ingests.delivered clean.2 frame listed

theorem Client.Sound.resume {limit : Nat} {c : Client}
    (sound : c.Sound server limit) (frame : Nat) :
    (c.step sha256 (.resume frame)).Sound server limit where
  assembles := by
    refine ⟨sound.assembles.inactive, rfl, fun id held found => ?_, Nat.zero_le _⟩
    rw [Client.step, FrameAssembler.resumeAfterSnapshot] at found
    simp at found
  limit := sound.limit
  frames := nofun
  ids := rfl
  next := rfl
  held := nofun

def Client.start (maxBuffer maxSnapshotBytes : Int) : Client :=
  { asm := newFrameAssembler maxBuffer maxSnapshotBytes }

theorem Client.Sound.start (server : Stream) (maxBuffer maxSnapshotBytes : Int) :
    (Client.start maxBuffer maxSnapshotBytes).Sound server
      (if maxBuffer ≤ 0 then 256 else maxBuffer.toNat) where
  assembles := by
    refine ⟨rfl, rfl, fun id held found => ?_, Nat.zero_le _⟩
    simp [Client.start, newFrameAssembler] at found
  limit := rfl
  frames := nofun
  ids := rfl
  next := rfl
  held := nofun

theorem Client.run_sound (maxBuffer maxSnapshotBytes : Int) {events : List Client.Event}
    (sent : ∀ packet, Client.Event.deliver packet ∈ events → server.Sends packet) :
    (run (Client.step sha256) (Client.start maxBuffer maxSnapshotBytes) events).Sound server
      (if maxBuffer ≤ 0 then 256 else maxBuffer.toNat) := by
  have legal : Along (Client.step sha256) (fun _ event => ∀ packet, event = .deliver packet →
      server.Sends packet) (Client.start maxBuffer maxSnapshotBytes) events := by
    refine along_of_forall fun event member packet same => sent packet ?_
    rwa [← same]
  refine invariant_along (fun c event legal sound => ?_) (Client.Sound.start server _ _) legal
  cases event with
  | deliver packet => exact sound.deliver sha256 (legal packet rfl)
  | resume frame => exact sound.resume sha256 frame

/-- Whatever is lost, repeated or reordered, the client releases the server's frames from
the expected one on, each once; it holds only later ones, within its bound; the awaited
frame is never refused; and frames that were all delivered without a refusal are all
released. -/
theorem reassembly_lossless (server : Stream) (maxBuffer maxSnapshotBytes : Int)
    (events : List Client.Event)
    (sent : ∀ packet, Client.Event.deliver packet ∈ events → server.Sends packet) :
    let c := run (Client.step sha256) (Client.start maxBuffer maxSnapshotBytes) events
    (c.released.map Frame.id = range' c.first c.released.length ∧
      (∀ frame ∈ c.released, frame ∈ server.frames) ∧
      c.asm.next = c.first + c.released.length) ∧
    (∀ id frame, c.asm.buffer.get id = some frame →
      c.asm.next < id ∧ frame.id = id ∧ frame ∈ server.frames) ∧
    c.asm.buffer.pairs.length ≤ (if maxBuffer ≤ 0 then 256 else maxBuffer.toNat) ∧
    (∀ packet frames, server.Sends packet → decodeBroadcast packet = .ok frames →
      ∀ frame ∈ frames, frame.id = c.asm.next →
        frame ∈ (c.asm.receive sha256 packet).2.1.frames) ∧
    (c.refused = false → ∀ last, (∀ id, c.first ≤ id → id ≤ last → id ∈ c.delivered) →
      ∀ id, c.first ≤ id → id ≤ last → id ∈ c.released.map Frame.id) := by
  intro c
  have sound := Client.run_sound sha256 maxBuffer maxSnapshotBytes sent
  change c.Sound server _ at sound
  refine ⟨⟨sound.ids, sound.frames, sound.next⟩, sound.assembles.buffers, ?_, ?_, ?_⟩
  · rw [← sound.limit]
    exact sound.assembles.room
  · intro packet frames sends decoded frame member awaited
    obtain ⟨receives, ingests⟩ := sends.receive sha256 sound.assembles decoded
    rw [receives]
    exact ingests.closes frame member awaited
  · intro clean last all id low high
    rw [sound.ids, mem_range'_1]
    refine ⟨low, ?_⟩
    -- the awaited frame cannot have been delivered: it would be released or buffered
    by_contra unreleased
    have next := sound.next
    have awaited := sound.held clean c.asm.next (all _ (by omega) (by omega))
    rcases awaited with passed | held
    · exact Nat.lt_irrefl _ passed
    obtain ⟨frame, found⟩ := isSome_iff_exists.mp held
    have := (sound.assembles.buffers _ _ found).1
    omega

end client

namespace Sample

def stream : Stream where
  frames := [{ id := 1, inputs := [] }, { id := 2, inputs := [{ player := 7, payload := [1] }] },
    { id := 3, inputs := [] }]
  ids := rfl
  bounded := by decide
  fit := by
    intro frame member
    simp only [mem_cons, not_mem_nil, or_false] at member
    obtain rfl | rfl | rfl := member
    · exact ⟨by decide, by decide, by decide, nofun⟩
    · refine ⟨by decide, by decide, by decide, fun input only => ?_⟩
      rw [mem_singleton.mp only]
      exact ⟨by decide, by decide, by decide⟩
    · exact ⟨by decide, by decide, by decide, nofun⟩

/-- The third frame comes before the others, which come in one page. -/
def reordered : List Client.Event :=
  [.deliver (encodeBroadcast (stream.frames.drop 2)), .deliver (encodeBroadcast stream.frames)]

end Sample

theorem reassembly_lossless_reordered :
    (∀ packet, Client.Event.deliver packet ∈ Sample.reordered → Sample.stream.Sends packet) ∧
    let c := run (Client.step fun _ => SnapshotDigest.zero) (Client.start 1 0) Sample.reordered
    c.released.map Frame.id = range' c.first c.released.length ∧
    c.released = Sample.stream.frames := by
  have sent (packet : Bytes) (listed : Client.Event.deliver packet ∈ Sample.reordered) :
      Sample.stream.Sends packet := by
    simp only [Sample.reordered, mem_cons, Client.Event.deliver.injEq, not_mem_nil,
      or_false] at listed
    obtain rfl | rfl := listed
    · exact .page _ (drop_suffix 2 _).isInfix (by decide)
    · exact .page _ (infix_refl _) (by decide)
  refine ⟨sent, ?_, by decide +kernel⟩
  exact (reassembly_lossless (fun _ => SnapshotDigest.zero) Sample.stream 1 0 Sample.reordered
    sent).1.1

end Roost.Lockstep
