import RoostCore.Entitysync.FrameCodec
import RoostCore.Entitysync.Packing

/-! A session and the receiver at the other end of its connection (`sync/frame/receiver.go`,
`HoldSession` and `ReadySession` of `entitysync/subscriptions.go`). The application takes
every frame that it is given; a callback that fails, panics or resets its receiver is not
modelled. -/
namespace Roost.Entitysync
open Go

structure Receiver where
  limits : Limits
  snapshot : SnapshotMeta := {}
  needsFull : Bool := true

def newReceiver (limits : Limits) : Receiver := { limits := normalizeLimits limits }

/-- `Receive`. The answer is the frame that was applied, or none for one that is old. -/
def Receiver.receive (r : Receiver) (raw : Bytes) :
    Receiver × Except FrameFault (Option Frame) :=
  match decodeFrame raw r.limits with
  | .error fault => ({ r with needsFull := true }, .error fault)
  | .ok f =>
      if r.snapshot.streamID ≠ 0 ∧ f.streamID ≠ r.snapshot.streamID then
        ({ r with needsFull := true }, .error .streamChanged)
      else if r.snapshot.streamID ≠ 0 ∧ (f.epoch < r.snapshot.epoch ∨
          f.epoch = r.snapshot.epoch ∧ f.tick ≤ r.snapshot.tick) then
        (r, .ok none)
      else if f.kind = delta ∧ (r.needsFull ∨ f.epoch ≠ r.snapshot.epoch ∨
          f.baseTick ≠ r.snapshot.tick ∨ f.schemaVersion ≠ r.snapshot.schemaVersion) then
        ({ r with needsFull := true }, .error .baselineMismatch)
      else ({ r with snapshot := f.toSnapshotMeta, needsFull := false }, .ok (some f))

/-- A full frame clears what the receiver holds before its objects are taken. -/
def View.opened (v : View) (f : Frame) : View := if f.kind = full then {} else v

def View.apply (v : View) (f : Frame) : View := f.objects.foldl View.take (v.opened f)

structure Delivery where
  payload : Bytes
  answer : Except FrameFault (Option Frame)
  before : View
  after : View
  adopted : Session

structure Link where
  lastEpoch : UInt32
  session : Session
  receiver : Receiver
  view : View := {}
  log : List Delivery := []

def nextEpoch (last : UInt32) : UInt32 := if last + 1 = 0 then 1 else last + 1

inductive Move
  | other
  | hold
  | ready
  | batch (entries : List FrameEntry) (admitted : Nat)

def Move.takesEpoch : Move → Bool
  | .other | .hold => true
  | _ => false

namespace Link

/-- A session that is opened on a new connection, after any number of epochs. -/
def start (cfg : WireConfig) (lastEpoch : UInt32) : Link where
  lastEpoch := nextEpoch lastEpoch
  session := { epoch := nextEpoch lastEpoch }
  receiver := newReceiver cfg.limits

/-- A frame is admitted, adopted and received. -/
def deliver (l : Link) (f : EncodedFrame) : Link :=
  let (receiver, answer) := l.receiver.receive f.payload
  let view := match answer with
    | .ok (some frame) => l.view.apply frame
    | _ => l.view
  { l with
    session := f.next
    receiver
    view
    log := l.log ++ [{
      payload := f.payload, answer, before := l.view, after := view, adopted := f.next }] }

/-- Another session takes an epoch, this one is held or readied, or a tick encodes entries
for it and some of the frames are admitted. Nothing is encoded for a held session. -/
def step (cfg : WireConfig) (l : Link) : Move → Link
  | .other => { l with lastEpoch := nextEpoch l.lastEpoch }
  | .hold =>
      { l with
        lastEpoch := nextEpoch l.lastEpoch
        session := {
          epoch := nextEpoch l.lastEpoch, framesSent := l.session.framesSent, held := true } }
  | .ready => { l with session := { l.session with held := false } }
  | .batch entries admitted =>
      if l.session.held then l
      else match l.session.encode entries cfg with
        | .error _ => l
        | .ok frames => (frames.take admitted).foldl deliver l

/-- The epochs do not wrap around. -/
def Counted (l : Link) (move : Move) : Prop := move.takesEpoch = true → l.lastEpoch + 1 ≠ 0

end Link

/-- The frame is accepted, its objects fit one after the other, it is within the limits,
and the receiver then holds what the adopted session says. -/
structure Delivery.Right (cfg : WireConfig) (d : Delivery) : Prop where
  accepted : ∃ frame, d.answer = .ok (some frame) ∧
    decodeFrame d.payload cfg.limits = .ok frame ∧
    Proper (d.before.opened frame) frame.objects ∧ d.after = d.before.apply frame ∧
    (frame.objects.length : Int) ≤ cfg.limits.maxObjects.toInt
  bytes : (d.payload.length : Int) ≤ cfg.limits.maxFrameBytes.toInt
  live : ∀ ref, ref ∈ d.after.live ↔ ∃ subject, d.adopted.objects.get subject = some ref

section Wire

structure Usable (cfg : WireConfig) : Prop where
  normal : normalizeLimits cfg.limits = cfg.limits
  room : 32 ≤ cfg.limits.maxFrameBytes.toInt

theorem orDefault_of_pos (positive : 0 < value.toInt) : orDefault value other = value := by
  rw [orDefault, if_neg]
  rw [Int64.le_iff_toInt_le]
  exact Int.not_le.mpr positive

theorem newWire_usable
    (made : newWire limits transport schemaVersion archetype componentType componentSchema =
      some cfg) : Usable cfg := by
  simp only [newWire] at made
  generalize within : (normalizeLimits limits).within transport = limits' at made
  split at made
  · cases made
  rename_i room
  cases made
  rw [Int64.lt_iff_toInt_lt, Int.not_lt] at room
  have header : 32 ≤ limits'.maxFrameBytes.toInt := room
  have objects : 0 < limits'.maxObjects.toInt := within ▸ orDefault_pos (by decide)
  have components : 0 < limits'.maxComponentsPerObject.toInt := within ▸ orDefault_pos (by decide)
  have bytes : 0 < limits'.maxComponentBytes.toInt := within ▸ orDefault_pos (by decide)
  have frame : 0 < limits'.maxFrameBytes.toInt := by omega
  refine ⟨?_, header⟩
  rw [normalizeLimits, orDefault_of_pos objects, orDefault_of_pos components,
    orDefault_of_pos bytes, orDefault_of_pos frame]

end Wire

section Linked
variable {cfg : WireConfig} {l : Link} {f : EncodedFrame}

theorem toNat_nextEpoch (counted : last + 1 ≠ 0) : (nextEpoch last).toNat = last.toNat + 1 := by
  rw [nextEpoch, if_neg counted]
  have bound := last.toNat_lt
  have other : last.toNat + 1 ≠ 2 ^ 32 := by
    intro full
    apply counted
    apply UInt32.toNat_inj.mp
    simp [full]
  simp
  omega

/-- The session and its receiver agree. Before the first frame of an epoch the session has
an empty table and an epoch that the receiver has not seen; after it they have the same
clock and the same references. -/
structure Linked (cfg : WireConfig) (l : Link) : Prop where
  tidy : l.session.Tidy
  limits : l.receiver.limits = cfg.limits
  epoch : l.session.epoch.toNat ≤ l.lastEpoch.toNat
  stream : l.receiver.snapshot.streamID = 0 ∨ l.receiver.snapshot.streamID = wireStream
  seen : l.receiver.snapshot.epoch.toNat ≤ l.lastEpoch.toNat
  fresh : l.session.tick = 0 → Mirrors l.session {} ∧
    (l.receiver.snapshot.streamID ≠ 0 → l.receiver.snapshot.epoch < l.session.epoch)
  current : l.session.tick ≠ 0 → Mirrors l.session l.view ∧ l.receiver.needsFull = false ∧
    l.receiver.snapshot = {
      streamID := wireStream, epoch := l.session.epoch, tick := l.session.tick
      schemaVersion := cfg.schemaVersion }
  right : ∀ d ∈ l.log, d.Right cfg

theorem tidy_fresh (s : Session) (objects : s.objects = ∅) (free : s.free = []) (next : s.next = 1) :
    s.Tidy := by
  have none (id : UInt16) : ¬ s.Live id := by
    rintro ⟨subject, ref, found, -⟩
    rw [objects, Table.get_empty] at found
    cases found
  have unused {id : UInt16} (some : id ≠ 0) : s.Unused id := by
    rw [Session.Unused, next]
    refine ⟨by decide, ?_⟩
    have positive : id.toNat ≠ 0 := fun zero => some (UInt16.toNat_inj.mp zero)
    change 1 ≤ id.toNat
    omega
  refine ⟨⟨fun id some => .inr (.inr (unused some)), ⟨by simp [free], none 0⟩, ?_, ?_, ?_, ?_, ?_⟩, ?_⟩
  · simp [free]
  · simp [free]
  · exact fun id live => absurd live (none id)
  · simp [free]
  · intro a b ref other found
    rw [objects, Table.get_empty] at found
    cases found
  · intro subject ref found
    rw [objects, Table.get_empty] at found
    cases found

theorem mirrors_fresh (s : Session) (objects : s.objects = ∅) (generations : s.generations = ∅) :
    Mirrors s {} := by
  constructor
  · intro ref
    simp [objects]
  · intro id
    rw [generations]

theorem Linked.start (usable : Usable cfg) (lastEpoch : UInt32) :
    Linked cfg (.start cfg lastEpoch) where
  tidy := tidy_fresh _ rfl rfl rfl
  limits := usable.normal
  epoch := Nat.le_refl _
  stream := .inl rfl
  seen := Nat.zero_le _
  fresh _ := ⟨mirrors_fresh _ rfl rfl, fun some => absurd rfl some⟩
  current some := absurd rfl some
  right := by simp [Link.start]

theorem Linked.other (linked : Linked cfg l) (counted : l.lastEpoch + 1 ≠ 0) :
    Linked cfg (l.step cfg .other) := by
  have next := toNat_nextEpoch counted
  have later : l.lastEpoch.toNat ≤ (nextEpoch l.lastEpoch).toNat := by omega
  exact { linked with epoch := linked.epoch.trans later, seen := linked.seen.trans later }

theorem Linked.hold (linked : Linked cfg l) (counted : l.lastEpoch + 1 ≠ 0) :
    Linked cfg (l.step cfg .hold) := by
  have next := toNat_nextEpoch counted
  have seen := linked.seen
  have later : l.lastEpoch.toNat ≤ (nextEpoch l.lastEpoch).toNat := by omega
  have newer : l.receiver.snapshot.epoch < nextEpoch l.lastEpoch := by
    rw [UInt32.lt_iff_toNat_lt, next]
    omega
  exact { linked with
    tidy := tidy_fresh _ rfl rfl rfl
    epoch := Nat.le_refl _
    seen := seen.trans later
    fresh := fun _ => ⟨mirrors_fresh _ rfl rfl, fun _ => newer⟩
    current := fun some => absurd rfl some }

theorem Linked.ready (linked : Linked cfg l) : Linked cfg (l.step cfg .ready) :=
  { linked with
    tidy := { linked.tidy with }
    fresh := fun zero => ⟨{ (linked.fresh zero).1 with }, (linked.fresh zero).2⟩
    current := fun some => ⟨{ (linked.current some).1 with }, (linked.current some).2⟩ }

theorem receive_eq {r : Receiver} {f : Frame} (decoded : decodeFrame raw r.limits = .ok f)
    (stream : r.snapshot.streamID ≠ 0 → f.streamID = r.snapshot.streamID ∧
      ¬ (f.epoch < r.snapshot.epoch ∨ f.epoch = r.snapshot.epoch ∧ f.tick ≤ r.snapshot.tick))
    (base : f.kind = delta → r.needsFull = false ∧ f.epoch = r.snapshot.epoch ∧
      f.baseTick = r.snapshot.tick ∧ f.schemaVersion = r.snapshot.schemaVersion) : r.receive raw =
      ({ r with snapshot := f.toSnapshotMeta, needsFull := false }, .ok (some f)) := by
  simp only [Receiver.receive, decoded]
  rw [if_neg fun changed => changed.2 (stream changed.1).1,
    if_neg fun old => (stream old.1).2 old.2, if_neg]
  rintro ⟨isDelta, misses⟩
  obtain ⟨ready, epoch, tick, schema⟩ := base isDelta
  simp [ready, epoch, tick, schema] at misses

/-- The next tick is later, since a frame with tick zero is not encoded. -/
theorem not_le_of_tick {tick : UInt32} (some : tick + 1 ≠ 0) : ¬ tick + 1 ≤ tick := by
  have next := toNat_nextEpoch some
  rw [nextEpoch, if_neg some] at next
  rw [UInt32.le_iff_toNat_le]
  omega

/-- The frame that a session makes of its objects. -/
structure Stamped (cfg : WireConfig) (s : Session) (objects : List ObjectDelta) (frame : Frame) :
    Prop where
  stamp : frame.toSnapshotMeta = {
    streamID := wireStream, epoch := s.epoch, tick := s.tick + 1
    schemaVersion := cfg.schemaVersion }
  kind : frame.kind = if s.tick = 0 then full else delta
  base : frame.baseTick = s.tick
  objects : frame.objects = objects

theorem Linked.received (linked : Linked cfg l) {frame : Frame}
    (stamped : Stamped cfg l.session objects frame)
    (decoded : decodeFrame raw cfg.limits = .ok frame) (some : frame.tick ≠ 0) :
    l.receiver.receive raw =
      ({ l.receiver with snapshot := frame.toSnapshotMeta, needsFull := false }, .ok (.some frame)) ∧
    Mirrors l.session (l.view.opened frame) := by
  have stamp := stamped.stamp
  have kind := stamped.kind
  have streamID : frame.streamID = wireStream := congrArg SnapshotMeta.streamID stamp
  have epoch : frame.epoch = l.session.epoch := congrArg SnapshotMeta.epoch stamp
  have tick : frame.tick = l.session.tick + 1 := congrArg SnapshotMeta.tick stamp
  have schema : frame.schemaVersion = cfg.schemaVersion := congrArg SnapshotMeta.schemaVersion stamp
  rw [← linked.limits] at decoded
  by_cases zero : l.session.tick = 0
  · rw [if_pos zero] at kind
    obtain ⟨mirrors, newer⟩ := linked.fresh zero
    refine ⟨receive_eq decoded ?_ ?_, ?_⟩
    · intro present
      refine ⟨streamID.trans (linked.stream.resolve_left present).symm, ?_⟩
      have above := UInt32.lt_iff_toNat_lt.mp (newer present)
      rw [epoch]
      rintro (old | ⟨same, -⟩)
      · have below := UInt32.lt_iff_toNat_lt.mp old
        omega
      · rw [same] at above
        omega
    · rw [kind]
      exact fun isDelta => absurd isDelta (by decide)
    · rwa [View.opened, if_pos kind]
  · rw [if_neg zero] at kind
    obtain ⟨mirrors, ready, snapshot⟩ := linked.current zero
    refine ⟨receive_eq decoded ?_ ?_, ?_⟩
    · intro _
      rw [snapshot]
      refine ⟨streamID, ?_⟩
      rw [epoch, tick]
      rw [tick] at some
      rintro (old | ⟨-, late⟩)
      · exact UInt32.lt_irrefl _ old
      · exact not_le_of_tick some late
    · intro _
      rw [snapshot]
      exact ⟨ready, epoch, stamped.base, schema⟩
    · rw [View.opened, if_neg]
      · exact mirrors
      · rw [kind]
        decide

theorem Linked.deliver (usable : Usable cfg) (small : cfg.limits.maxComponentBytes.toInt < 2 ^ 32)
    (linked : Linked cfg l) (packed : Packed cfg l.session f) : Linked cfg (l.deliver f) := by
  obtain ⟨objects, t, renders, count, encoded, next⟩ := packed
  have normal := usable.normal
  have clock := renders.clock
  have stamped : Stamped cfg l.session objects (Packing.frame cfg { session := t, objects }) := by
    constructor
    · rw [← clock.epoch, ← clock.tick]
      rfl
    · rw [← clock.tick]
      rfl
    · rw [← clock.tick]
      rfl
    · rfl
  generalize Packing.frame cfg { session := t, objects } = frame at encoded stamped
  have room : 32 ≤ (normalizeLimits cfg.limits).maxFrameBytes.toInt := by
    rw [normal]
    exact usable.room
  have decoded : decodeFrame f.payload cfg.limits = .ok frame :=
    decodeFrame_encodeFrame encoded room (by rwa [normal])
  have bytes := (length_encodeFrame encoded room).2
  have tick := (validateFrame_ok (encodeFrame_ok encoded).1).tick
  obtain ⟨received, opened⟩ := linked.received stamped decoded tick
  have proper := renders.proper linked.tidy opened
  have after := renders.mirrors linked.tidy opened
  have tidy := renders.tidy linked.tidy
  rw [normal] at bytes count
  rw [← stamped.objects] at proper after count
  have mirrors : Mirrors t.ticked (l.view.apply frame) := ⟨after.live, after.last⟩
  have delivered : l.deliver f = { l with
      session := t.ticked
      receiver := { l.receiver with snapshot := frame.toSnapshotMeta, needsFull := false }
      view := l.view.apply frame
      log := l.log ++ [{
        payload := f.payload, answer := .ok (some frame), before := l.view
        after := l.view.apply frame, adopted := t.ticked }] } := by
    simp [Link.deliver, received, next]
  have later : t.ticked.tick ≠ 0 := by
    rw [stamped.stamp, ← clock.tick] at tick
    exact tick
  rw [delivered]
  refine {
    tidy := { tidy with }
    limits := linked.limits
    epoch := ?_
    stream := ?_
    seen := ?_
    fresh := fun zero => absurd zero later
    current := fun _ => ⟨mirrors, rfl, ?_⟩
    right := ?_ }
  · have same : t.ticked.epoch = l.session.epoch := clock.epoch
    rw [same]
    exact linked.epoch
  · exact .inr (congrArg SnapshotMeta.streamID stamped.stamp)
  · have same : frame.epoch = l.session.epoch := congrArg SnapshotMeta.epoch stamped.stamp
    rw [same]
    exact linked.epoch
  · rw [stamped.stamp, ← clock.epoch, ← clock.tick]
    rfl
  · intro d member
    rcases mem_snoc.mp member with old | rfl
    · exact linked.right d old
    · exact ⟨⟨frame, rfl, decoded, proper, rfl, count⟩, bytes, mirrors.live⟩

theorem Linked.delivers (usable : Usable cfg) (small : cfg.limits.maxComponentBytes.toInt < 2 ^ 32)
    (linked : Linked cfg l) (chain : Chain cfg l.session frames t) (admitted : Nat) :
    Linked cfg ((frames.take admitted).foldl Link.deliver l) := by
  induction frames generalizing l admitted with
  | nil =>
    rw [List.take_nil]
    exact linked
  | cons f rest ih =>
    cases admitted with
    | zero => exact linked
    | succ admitted =>
      cases chain with
      | cons packed more => exact ih (linked.deliver usable small packed) more admitted

theorem Linked.step (usable : Usable cfg) (small : cfg.limits.maxComponentBytes.toInt < 2 ^ 32)
    (linked : Linked cfg l) (counted : l.Counted move) : Linked cfg (l.step cfg move) := by
  cases move with
  | other => exact linked.other (counted rfl)
  | hold => exact linked.hold (counted rfl)
  | ready => exact linked.ready
  | batch entries admitted =>
    rw [Link.step]
    split
    · exact linked
    split
    · exact linked
    rename_i frames encoded
    obtain ⟨t, chain⟩ := encode_chain encoded
    exact linked.delivers usable small chain admitted

end Linked

/-- Every admitted frame drives the receiver as it should, in every run of ticks, holds
and epochs of other sessions, as long as the epochs do not wrap around and the limit of a
payload is below 2 ^ 32; and the identifiers of the session stay parted. -/
theorem frames_drive_receiver {limits : Limits} {transport : Int64}
    {schemaVersion archetype componentType componentSchema : UInt16} {cfg : WireConfig}
    (made : newWire limits transport schemaVersion archetype componentType componentSchema =
      some cfg)
    (small : cfg.limits.maxComponentBytes.toInt < 2 ^ 32) (lastEpoch : UInt32)
    (moves : List Move)
    (counted : Along (Link.step cfg) Link.Counted (.start cfg lastEpoch) moves) :
    let l := run (Link.step cfg) (.start cfg lastEpoch) moves
    (∀ d ∈ l.log, d.Right cfg) ∧ l.session.Partitioned := by
  have usable := newWire_usable made
  have linked := invariant_along (P := Linked cfg) (fun l move ok linked => linked.step usable small ok)
    (Linked.start usable lastEpoch) counted
  exact ⟨linked.right, linked.tidy.toPartitioned⟩

namespace Sample

/-- The limits of a manager that sets the one of a payload only. -/
def limits (maxComponentBytes : Int64) : Limits where
  maxObjects := 0
  maxComponentsPerObject := 0
  maxComponentBytes
  maxFrameBytes := 0

def cfg (maxComponentBytes : Int64) : WireConfig where
  limits := normalizeLimits (limits maxComponentBytes)
  schemaVersion := 1
  archetype := 1
  componentType := 1
  componentSchema := 1

def update (subjectID : Int64) : SubjectSyncUpdate where
  subjectID
  nameSpace := []
  subjectKind := 0
  profile := { key := [], lod := 0, schemaVersion := 0 }
  version := 1
  baseVersion := 0
  mask := 0
  full := true
  reason := 0
  payload := { codec := 0, data := [7] }

def create (subjectID : Int64) : FrameEntry := { subjectID, kind := .create (update subjectID) }

/-- Two objects, one of which is replaced by a third one in the next tick, in one frame. -/
def replaces : List Move :=
  [.batch [create 1, create 2] 1, .batch [create 3, { subjectID := 1, kind := .remove }] 1]

/-- One object before a reset and another one after it. -/
def resets : List Move := [.batch [create 1] 1, .hold, .ready, .batch [create 2] 1]

/-- The references that a frame creates, when it was applied. -/
def created (d : Delivery) : List ObjectRef :=
  match d.answer with
  | .ok (some f) => (f.objects.filter (·.operation = objectCreate)).map (·.ref)
  | _ => []

end Sample

open Sample

/-- The identifier of what leaves is taken again under another generation. -/
theorem frames_drive_receiver_replaces : newWire (limits 0) 0 0 0 0 0 = some (cfg 0) ∧
    ((run (Link.step (cfg 0)) (.start (cfg 0) 0) replaces).log.map
      created = [[⟨1, 1⟩, ⟨2, 1⟩], [⟨1, 2⟩]]) ∧
    let l := run (Link.step (cfg 0)) (.start (cfg 0) 0) replaces
    (∀ d ∈ l.log, d.Right (cfg 0)) ∧ l.session.Partitioned := by
  have made : newWire (limits 0) 0 0 0 0 0 = some (cfg 0) := rfl
  exact ⟨made, by decide +kernel,
    frames_drive_receiver made (by decide) 0 replaces ⟨nofun, nofun, trivial⟩⟩

/-- After a reset another object has the reference of the one before it; when the epochs
have wrapped around, the frame after the reset is dropped as an old one; and a limit of
2 ^ 32 for a payload, which the decoder cuts to zero, has every payload refused. -/
theorem reset_reuses_reference :
    (run (Link.step (cfg 0)) (.start (cfg 0) 0) resets).log.map
      created = [[⟨1, 1⟩], [⟨1, 1⟩]] ∧
    ((run (Link.step (cfg 0)) (.start (cfg 0) 0xFFFFFFFE) resets).log.map
      fun d => match d.answer with | .ok none => true | _ => false) = [false, true] ∧
    newWire (limits (2 ^ 32)) 0 0 0 0 0 = some (cfg (2 ^ 32)) ∧
    ((run (Link.step (cfg (2 ^ 32))) (.start (cfg (2 ^ 32)) 0)
      [.batch [create 1] 1]).log.map
        fun d => match d.answer with | .error fault => some fault | _ => none) =
      [some .componentTooLarge] :=
  ⟨by decide +kernel, by decide +kernel, rfl, by decide +kernel⟩

end Roost.Entitysync
