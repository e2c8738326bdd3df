import RoostCore.Entitysync.Frame

/-! A frame that is encoded is decoded again, within the limits of its size. The one limit
that the two sides read differently is that of a payload: the decoder cuts it to 32 bits. -/
namespace Roost.Entitysync
open Go

section Sizes

def componentSize (component : ComponentDelta) : Nat := 9 + component.data.length

def objectSize (object : ObjectDelta) : Nat := 9 + (object.components.map componentSize).sum

def frameSize (objects : List ObjectDelta) : Nat := 32 + (objects.map objectSize).sum

theorem sized_uint8 (value : UInt8) : Sized (appendUint8 value) 1 := .plain [value]

theorem sized_big (width n : Nat) : Sized (.ok (bigEndian width n) : Except ε Bytes) width := by
  have length := Sized.plain (ε := ε) (bigEndian width n)
  rwa [length_bigEndian] at length

theorem sized_component (component : ComponentDelta) :
    Sized (appendComponent component) (componentSize component) := by
  have pieces : Sized (appendComponent component) _ :=
    (sized_uint8 _).cons <| (sized_big 2 _).cons <| (sized_big 2 _).cons <| (sized_big 4 _).cons <|
      (Sized.plain component.data).cons .nil
  rw [componentSize]
  convert pieces using 1
  omega

theorem sized_object (object : ObjectDelta) : Sized (appendObject object) (objectSize object) := by
  have pieces : Sized (appendObject object) _ :=
    .checked <| (sized_uint8 _).cons <| (sized_big 2 _).cons <| (sized_big 2 _).cons <|
      (sized_big 2 _).cons <| (sized_big 2 _).cons <| (Sized.each sized_component _).cons .nil
  rw [objectSize]
  convert pieces using 1
  omega

theorem sized_frame (frame : Frame) : Sized (appendFrame frame) (frameSize frame.objects) := by
  have pieces : Sized (appendFrame frame) _ :=
    (sized_big 4 _).cons <| (sized_big 2 _).cons <| (sized_uint8 _).cons <| (sized_uint8 _).cons <|
      (sized_big 8 _).cons <| (sized_big 4 _).cons <| (sized_big 4 _).cons <| (sized_big 4 _).cons <|
      (sized_big 2 _).cons <| (sized_big 2 _).cons <| (Sized.each sized_object _).cons .nil
  rw [frameSize]
  convert pieces using 1
  omega

end Sizes

section Estimate
variable {limits : Limits}

/-- The estimate of the components is their size, and it was compared unless there are none. -/
theorem addComponents_ok {components : List ComponentDelta}
    (added : components.foldlM (addComponent limits) size = .ok total)
    (start : (size : Int) ≤ limits.maxFrameBytes.toInt) :
    total = size + (components.map componentSize).sum ∧
      (total : Int) ≤ limits.maxFrameBytes.toInt := by
  induction components generalizing size with
  | nil =>
    cases added
    exact ⟨rfl, start⟩
  | cons head tail ih =>
    obtain ⟨next, first, rest⟩ := bind_ok added
    obtain ⟨fits, reached⟩ := refuse_bind_ok first
    cases reached
    obtain ⟨same, bound⟩ := ih rest (by omega)
    refine ⟨?_, bound⟩
    rw [same, List.map_cons, List.sum_cons, componentSize]
    omega

theorem addObject_ok {object : ObjectDelta} (added : addObject limits size object = .ok total) :
    total = size + objectSize object ∧ (total : Int) ≤ limits.maxFrameBytes.toInt := by
  obtain ⟨fits, components⟩ := refuse_bind_ok added
  obtain ⟨same, bound⟩ := addComponents_ok components (by omega)
  refine ⟨?_, bound⟩
  rw [same, objectSize]
  omega

/-- A frame without objects is not compared with the limit at all. -/
theorem addObjects_ok {objects : List ObjectDelta}
    (added : objects.foldlM (addObject limits) size = .ok total)
    (start : (size : Int) ≤ limits.maxFrameBytes.toInt) :
    total = size + (objects.map objectSize).sum ∧ (total : Int) ≤ limits.maxFrameBytes.toInt := by
  induction objects generalizing size with
  | nil =>
    cases added
    exact ⟨rfl, start⟩
  | cons head tail ih =>
    obtain ⟨next, first, rest⟩ := bind_ok added
    obtain ⟨reached, bound⟩ := addObject_ok first
    obtain ⟨same, total⟩ := ih rest bound
    refine ⟨?_, total⟩
    rw [same, reached, List.map_cons, List.sum_cons]
    omega

end Estimate

section Checked
variable {limits : Limits}

structure Fitting (limits : Limits) (object : ObjectDelta) : Prop where
  count : (object.components.length : Int) ≤ (limits.maxComponentsPerObject * 2).toInt
  payload : ∀ component ∈ object.components,
    (component.data.length : Int) ≤ limits.maxComponentBytes.toInt

theorem validateComponent_ok (passed : validateComponent limits operation seen component = .ok next) :
    (component.data.length : Int) ≤ limits.maxComponentBytes.toInt := by
  obtain ⟨_, passed⟩ := refuse_bind_ok passed
  obtain ⟨_, passed⟩ := refuse_bind_ok passed
  obtain ⟨_, passed⟩ := refuse_bind_ok passed
  obtain ⟨_, passed⟩ := refuse_bind_ok passed
  obtain ⟨_, passed⟩ := refuse_bind_ok passed
  obtain ⟨fits, -⟩ := refuse_bind_ok passed
  omega

theorem validateObject_ok (passed : validateObject limits kind seen object = .ok next) :
    Fitting limits object := by
  obtain ⟨_, passed⟩ := refuse_bind_ok passed
  obtain ⟨_, passed⟩ := refuse_bind_ok passed
  obtain ⟨_, passed⟩ := refuse_bind_ok passed
  obtain ⟨_, passed⟩ := refuse_bind_ok passed
  obtain ⟨_, passed⟩ := refuse_bind_ok passed
  obtain ⟨_, passed⟩ := refuse_bind_ok passed
  obtain ⟨fits, passed⟩ := refuse_bind_ok passed
  obtain ⟨_, components, -⟩ := bind_ok passed
  refine ⟨by omega, fun component member => ?_⟩
  obtain ⟨before, after, valid⟩ := foldlM_ok components component member
  exact validateComponent_ok valid

structure Formed (limits : Limits) (frame : Frame) : Prop where
  tick : frame.tick ≠ 0
  count : (frame.objects.length : Int) ≤ (limits.maxObjects * 2).toInt
  objects : ∀ object ∈ frame.objects, Fitting limits object

theorem validateFrame_ok (passed : validateFrame frame limits = .ok ()) : Formed limits frame := by
  obtain ⟨⟨⟩, head, passed⟩ := bind_ok passed
  have tick : frame.tick ≠ 0 := fun zero => refuse_ok head (.inr (.inr (.inl zero)))
  obtain ⟨_, passed⟩ := refuse_bind_ok passed
  obtain ⟨_, passed⟩ := refuse_bind_ok passed
  obtain ⟨_, passed⟩ := refuse_bind_ok passed
  obtain ⟨fits, passed⟩ := refuse_bind_ok passed
  obtain ⟨_, objects, -⟩ := bind_ok passed
  refine ⟨tick, by omega, fun object member => ?_⟩
  obtain ⟨before, after, valid⟩ := foldlM_ok objects object member
  exact validateObject_ok valid

end Checked

section RoundTrip
variable {limits : Limits}

theorem reads_uint16 (value : UInt16) : Reads readUint16 (bigEndian 2 value.toNat) value := by
  have number : Reads (Reader.big 2 FrameFault.truncated) (bigEndian 2 value.toNat) value.toNat :=
    .big (Reads.uint16_fits value)
  have read := number.result (f := UInt16.ofNat)
  rwa [UInt16.ofNat_toNat] at read

theorem reads_uint32 (value : UInt32) : Reads readUint32 (bigEndian 4 value.toNat) value := by
  have number : Reads (Reader.big 4 FrameFault.truncated) (bigEndian 4 value.toNat) value.toNat :=
    .big (Reads.uint32_fits value)
  have read := number.result (f := UInt32.ofNat)
  rwa [UInt32.ofNat_toNat] at read

theorem reads_uint64 (value : UInt64) : Reads readUint64 (bigEndian 8 value.toNat) value := by
  have number : Reads (Reader.big 8 FrameFault.truncated) (bigEndian 8 value.toNat) value.toNat :=
    .big (Reads.uint64_fits value)
  have read := number.result (f := UInt64.ofNat)
  rwa [UInt64.ofNat_toNat] at read

theorem writes_uint8 (value : UInt8) : Writes (appendUint8 value) readUint8 value :=
  .plain (.byte value)

theorem writes_uint16 (value : UInt16) : Writes (appendUint16 value) readUint16 value :=
  .plain (reads_uint16 value)

theorem writes_uint32 (value : UInt32) : Writes (appendUint32 value) readUint32 value :=
  .plain (reads_uint32 value)

theorem writes_uint64 (value : UInt64) : Writes (appendUint64 value) readUint64 value :=
  .plain (reads_uint64 value)

theorem toNat_count (fits : count ≤ 65535) : (UInt16.ofNat count).toNat = count := by
  have small : count < 2 ^ 16 := by omega
  exact UInt16.toNat_ofNat_of_lt' small

theorem writes_count (fits : count ≤ 65535) :
    Writes (.ok (bigEndian 2 count) : Piece) readUint16 (.ofNat count) := by
  have read := reads_uint16 (.ofNat count)
  rw [toNat_count fits] at read
  exact .plain read

theorem writes_length (fits : length < 2 ^ 32) :
    Writes (.ok (bigEndian 4 length) : Piece) readUint32 (.ofNat length) := by
  have read := reads_uint32 (.ofNat length)
  rw [UInt32.toNat_ofNat_of_lt' fits] at read
  exact .plain read

section
variable (small : limits.maxComponentBytes.toInt < 2 ^ 32)
include small

theorem toUInt32_limit (positive : 0 ≤ limits.maxComponentBytes.toInt) :
    (limits.maxComponentBytes.toUInt64.toUInt32.toNat : Int) = limits.maxComponentBytes.toInt := by
  generalize limits.maxComponentBytes = limit at small positive ⊢
  have unsigned : limit.toUInt64.toNat = limit.toBitVec.toNat := rfl
  have signed : limit.toInt = limit.toBitVec.toInt := rfl
  rw [BitVec.toInt_eq_toNat_cond] at signed
  rw [UInt64.toNat_toUInt32, unsigned]
  split at signed <;> omega

theorem writes_component (fits : (component.data.length : Int) ≤ limits.maxComponentBytes.toInt) :
    Writes (appendComponent component) (readComponent limits) component := by
  have cut := toUInt32_limit small (by omega)
  have short : component.data.length < 2 ^ 32 := by omega
  have length : (UInt32.ofNat component.data.length).toNat = component.data.length :=
    UInt32.toNat_ofNat_of_lt' short
  refine (writes_uint8 _).cons <| (writes_uint16 _).cons <| (writes_uint16 _).cons <|
    (writes_length short).cons ?_
  intro text written
  obtain ⟨data, none, wrote, nothing, rfl⟩ := joined_cons_ok written
  cases wrote
  cases nothing
  rw [List.append_nil]
  refine .remaining fun left enough => .refuse ?_ ((Reads.take length.symm).result)
  rw [gt_iff_lt, UInt32.lt_iff_toNat_lt, length]
  omega

theorem writes_object (fitting : Fitting limits object) :
    Writes (appendObject object) (readObject limits) object := by
  refine .checked fun few => (writes_uint8 _).cons <| (writes_uint16 _).cons <|
    (writes_uint16 _).cons <| (writes_uint16 _).cons <| (writes_count few).cons ?_
  have count := toNat_count few
  have components : Writes (joined (object.components.map appendComponent))
      ((readComponent limits).times object.components.length) (object.components.map id) :=
    .each fun component member => writes_component small (fitting.payload component member)
  have limit := fitting.count
  rw [List.map_id] at components
  refine .refuse (by rw [count]; omega) ?_
  rw [count]
  exact components.cons (.nil _)

theorem writes_frame (few : frame.objects.length ≤ 65535) (formed : Formed limits frame) :
    Writes (appendFrame frame) (readFrame limits) frame := by
  have count := toNat_count few
  have objects : Writes (joined (frame.objects.map appendObject))
      ((readObject limits).times frame.objects.length) (frame.objects.map id) :=
    .each fun object member => writes_object small (formed.objects object member)
  have limit := formed.count
  rw [List.map_id] at objects
  refine (writes_uint32 _).cons <| (writes_uint16 _).cons <| (writes_uint8 _).cons <|
    (writes_uint8 _).cons <| (writes_uint64 _).cons <| (writes_uint32 _).cons <|
    (writes_uint32 _).cons <| (writes_uint32 _).cons <| (writes_uint16 _).cons <|
    (writes_count few).cons <| .refuse (by simp) <| .refuse (by rw [count]; omega) ?_
  rw [count]
  exact objects.cons (.nil _)

end

theorem encodeFrame_ok (encoded : encodeFrame frame limits = .ok bytes) :
    validateFrame frame (normalizeLimits limits) = .ok () ∧ frame.objects.length ≤ 65535 ∧
      (∃ total, frame.objects.foldlM (addObject (normalizeLimits limits)) 32 = .ok total) ∧
      appendFrame frame = .ok bytes := by
  obtain ⟨⟨⟩, valid, passed⟩ := bind_ok encoded
  obtain ⟨few, passed⟩ := refuse_bind_ok passed
  obtain ⟨total, estimated, written⟩ := bind_ok passed
  exact ⟨valid, Nat.le_of_not_gt few, ⟨total, estimated⟩, written⟩

/-- The header has to fit, since an empty frame is not compared with the limit. -/
theorem length_encodeFrame {limits : Limits} (encoded : encodeFrame frame limits = .ok bytes)
    (room : 32 ≤ (normalizeLimits limits).maxFrameBytes.toInt) :
    bytes.length = frameSize frame.objects ∧
      (bytes.length : Int) ≤ (normalizeLimits limits).maxFrameBytes.toInt := by
  obtain ⟨-, -, ⟨total, estimated⟩, written⟩ := encodeFrame_ok encoded
  obtain ⟨same, bound⟩ := addObjects_ok estimated room
  have length := sized_frame frame bytes written
  rw [frameSize] at length ⊢
  exact ⟨length, by omega⟩

theorem decodeFrame_encodeFrame (encoded : encodeFrame frame limits = .ok bytes)
    (room : 32 ≤ (normalizeLimits limits).maxFrameBytes.toInt)
    (small : (normalizeLimits limits).maxComponentBytes.toInt < 2 ^ 32) :
    decodeFrame bytes limits = .ok frame := by
  obtain ⟨length, bound⟩ := length_encodeFrame encoded room
  obtain ⟨valid, few, -, written⟩ := encodeFrame_ok encoded
  have read := writes_frame small few (validateFrame_ok valid) bytes written
  have sized : ¬ (bytes.length = 0 ∨
      (bytes.length : Int) > (normalizeLimits limits).maxFrameBytes.toInt) := by
    rw [frameSize] at length
    omega
  rw [decodeFrame, refuse, if_neg sized]
  rw [read.whole]
  change (validateFrame frame (normalizeLimits limits) >>= _) = _
  rw [valid]
  rfl

end RoundTrip

end Roost.Entitysync
