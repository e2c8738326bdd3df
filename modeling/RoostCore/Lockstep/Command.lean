import RoostCore.Lockstep.Wire

/-! The commands a client sends (`command.go`). A command names no seat: the match takes
it from the session. -/
namespace Roost.Lockstep
open Go

abbrev Operation := UInt8

def opInput : Operation := 1

def opHash : Operation := 2

def opCatchup : Operation := 3

structure Command where
  operation : Operation
  frame : UInt32
  payload : Payload := []
  hash : UInt64 := 0
  deriving DecidableEq, Repr

inductive CommandError where
  | frameZero
  | payloadTooBig
  | inputHash
  | hashPayload
  | catchupFields
  | unknown (operation : Operation)
  | header
  | frameRange
  | inputLength
  | trailing
  | varint
  deriving DecidableEq, Repr

def Command.validate (c : Command) : Except CommandError Unit :=
  if c.frame = 0 then .error .frameZero
  else if c.operation = opInput then
    if maxInputPayloadBytes < c.payload.length then .error .payloadTooBig
    else if c.hash ≠ 0 then .error .inputHash
    else .ok ()
  else if c.operation = opHash then
    if c.payload.length ≠ 0 then .error .hashPayload else .ok ()
  else if c.operation = opCatchup then
    if c.payload.length ≠ 0 ∨ c.hash ≠ 0 then .error .catchupFields else .ok ()
  else .error (.unknown c.operation)

/-- The fields after the frame. -/
def Command.fields (c : Command) : Bytes :=
  if c.operation = opInput then uvarint c.payload.length ++ c.payload
  else if c.operation = opHash then uvarint c.hash.toNat
  else []

def encodeCommand (c : Command) : Except CommandError Bytes :=
  match c.validate with
  | .error err => .error err
  | .ok () => .ok (0xC8 :: 1 :: c.operation :: (uvarint c.frame.toNat ++ c.fields))

def commandVarint : Reader CommandError Nat := fun data =>
  match readUvarint data with
  | some read => .ok read
  | none => .error .varint

def readFields (operation : Operation) (frame : Nat) : Reader CommandError Command :=
  if operation = opInput then do
    let size ← commandVarint
    let left ← Reader.remaining
    Reader.refuse (maxInputPayloadBytes < size ∨ left < size) .inputLength
    let payload ← Reader.take size .inputLength
    return { operation, frame := UInt32.ofNat frame, payload }
  else if operation = opHash then do
    let hash ← commandVarint
    return { operation, frame := UInt32.ofNat frame, hash := UInt64.ofNat hash }
  else if operation = opCatchup then
    return { operation, frame := UInt32.ofNat frame }
  else fun _ => .error (.unknown operation)

def readCommand (operation : Operation) : Reader CommandError Command := do
  let frame ← commandVarint
  Reader.refuse (frame = 0 ∨ 2 ^ 32 - 1 < frame) .frameRange
  readFields operation frame

def decodeCommand (data : Bytes) : Except CommandError Command :=
  match data with
  | magic :: version :: operation :: rest =>
      if rest = [] ∨ magic ≠ 0xC8 ∨ version ≠ 1 then .error .header
      else
        match readCommand operation rest with
        | .error err => .error err
        | .ok (c, left) =>
            if left.length ≠ 0 then .error .trailing
            else
              match c.validate with
              | .error err => .error err
              | .ok () => .ok c
  | _ => .error .header

theorem Command.validate_ok {c : Command} (valid : c.validate = .ok ()) : c.frame ≠ 0 ∧
      ((c.operation = opInput ∧ c.payload.length ≤ maxInputPayloadBytes ∧ c.hash = 0) ∨
        (c.operation = opHash ∧ c.payload = []) ∨
        (c.operation = opCatchup ∧ c.payload = [] ∧ c.hash = 0)) := by
  obtain ⟨frame, valid⟩ := guard_ok valid
  refine ⟨frame, ?_⟩
  split at valid
  · rename_i input
    obtain ⟨small, valid⟩ := guard_ok valid
    obtain ⟨bare, -⟩ := guard_ok valid
    exact .inl ⟨input, Nat.not_lt.mp small, not_not.mp bare⟩
  · split at valid
    · rename_i hash
      obtain ⟨bare, -⟩ := guard_ok valid
      exact .inr (.inl ⟨hash, List.length_eq_zero_iff.mp (not_not.mp bare)⟩)
    · split at valid
      · rename_i catchup
        obtain ⟨bare, -⟩ := guard_ok valid
        rw [not_or, not_not, not_not, List.length_eq_zero_iff] at bare
        exact .inr (.inr ⟨catchup, bare⟩)
      · contradiction

theorem reads_commandVarint (fits : n < 2 ^ 64) : Reads commandVarint (uvarint n) n := by
  intro rest
  rw [commandVarint, readUvarint_uvarint n rest fits]

theorem reads_fields {c : Command} (valid : c.validate = .ok ()) :
    Reads (readFields c.operation c.frame.toNat) c.fields c := by
  have legal := (Command.validate_ok valid).2
  obtain ⟨operation, frame, payload, hash⟩ := c
  dsimp only at legal ⊢
  rw [readFields, Command.fields]
  simp only [UInt32.ofNat_toNat]
  obtain ⟨rfl, small, rfl⟩ | ⟨rfl, rfl⟩ | ⟨rfl, rfl, rfl⟩ := legal
  · have size : maxInputPayloadBytes = 1024 := rfl
    refine (reads_commandVarint (by omega)).bind (.remaining fun left enough => .refuse ?_ ?_)
    · omega
    · exact (Reads.take rfl).result
  · have bound := hash.toNat_lt
    have read := (reads_commandVarint (by omega)).result
      (f := fun value => { operation := opHash, frame, hash := UInt64.ofNat value : Command })
    rwa [UInt64.ofNat_toNat] at read
  · exact .pure _

theorem decodeCommand_encodeCommand (encoded : encodeCommand c = .ok data) :
    decodeCommand data = .ok c := by
  rw [encodeCommand] at encoded
  split at encoded
  · contradiction
  rename_i valid
  cases encoded
  have bound := c.frame.toNat_lt
  have frame : c.frame.toNat ≠ 0 := fun zero =>
    (Command.validate_ok valid).1 (UInt32.toNat_inj.mp zero)
  have read : Reads (readCommand c.operation) (uvarint c.frame.toNat ++ c.fields) c :=
    (reads_commandVarint (by omega)).bind (.refuse (by omega) (reads_fields valid))
  have filled : uvarint c.frame.toNat ++ c.fields ≠ [] := by
    intro empty
    have := uvarint_length_pos c.frame.toNat
    rw [(List.append_eq_nil_iff.mp empty).1] at this
    contradiction
  rw [decodeCommand, if_neg (by simp [filled]), read.whole]
  dsimp only
  rw [if_neg (by simp), valid]

end Roost.Lockstep
