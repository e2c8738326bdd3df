import RoostCore.Go.Table

/-! The input sequencer of a lockstep match (`sequencer.go`): submissions are folded
into frames that are cut on the host's clock, and a ring for each seat remembers which
frame an input went into. Seats are `int32`, frame IDs `uint32` whose sums are taken
modulo 2^32. -/
namespace Roost.Lockstep
open Go

abbrev Payload := List UInt8

structure Input where
  player : Int
  payload : Payload
  deriving DecidableEq, Repr

structure Frame where
  id : Nat
  inputs : List Input
  deriving DecidableEq, Repr

def maxInputPayloadBytes : Nat := 1024

def maxSubmitWindow : Nat := 64

/-- `MaxFrameInputs` of the wire format. -/
def maxFrameInputs : Nat := 256

def replayHorizon : Nat := maxSubmitWindow

def replayWindowSize : Nat := replayHorizon + maxSubmitWindow + 1

inductive ConfigFault where
  | noPlayer
  | window (window : Nat)
  | maxInput (bytes : Int)
  | seats (count : Nat)
  | negative (player : Int)
  | duplicate (player : Int)
  deriving DecidableEq, Repr

inductive SubmitError where
  | playerUnknown | payloadTooBig | frameTooEarly
  deriving DecidableEq, Repr

/-- `target` is zero on an empty cell. -/
structure ReplaySlot where
  original : Nat := 0
  target : Nat := 0
  deriving DecidableEq, Repr

/-- `folded` tells a payload that was late for its own frame. -/
structure PendingInput where
  payload : Payload
  folded : Bool
  deriving DecidableEq, Repr

/-- Zero selects the defaults of the window and of the payload limit. -/
structure SequencerConfig where
  players : List Int
  submitWindow : Nat := 0
  maxInputBytes : Int := 0

structure Sequencer where
  players : List Int
  window : Nat
  maxInput : Int
  next : Nat := 1
  pending : Table Nat (Table Int PendingInput) := ∅
  accepted : Table Int (List ReplaySlot) := ∅

/-- The loop over the seats. -/
def checkSeats (seen : List Int) : List Int → Except ConfigFault Unit
  | [] => .ok ()
  | player :: rest =>
      if player < 0 then .error (.negative player)
      else if seen.contains player then .error (.duplicate player)
      else checkSeats (player :: seen) rest

def newSequencer (config : SequencerConfig) : Except ConfigFault Sequencer := do
  if config.players = [] then .error .noPlayer
  let window := if config.submitWindow = 0 then 2 else config.submitWindow
  if maxSubmitWindow < window then .error (.window window)
  let maxInput : Int :=
    if config.maxInputBytes = 0 then maxInputPayloadBytes else config.maxInputBytes
  if maxInput < 0 ∨ maxInputPayloadBytes < maxInput then .error (.maxInput maxInput)
  if maxFrameInputs < config.players.length then .error (.seats config.players.length)
  checkSeats [] config.players
  return { players := config.players, window, maxInput }

namespace Sequencer

/-- The oldest original inside the replay horizon. -/
def replayFloor (s : Sequencer) : Nat :=
  if s.next ≤ replayHorizon then 0 else s.next - replayHorizon

/-- The ring of a seat; one that was not allocated yet has empty cells. -/
def ring (s : Sequencer) (player : Int) : List ReplaySlot :=
  (s.accepted.get player).getD (List.replicate replayWindowSize {})

def slot (s : Sequencer) (player : Int) (original : Nat) : ReplaySlot :=
  (s.ring player).getD (original % replayWindowSize) {}

def remember (s : Sequencer) (player : Int) (original target : Nat) (inHorizon : Bool) :
    Sequencer :=
  if inHorizon then
    { s with
      accepted := s.accepted.set player ((s.ring player).set (original % replayWindowSize)
        { original, target }) }
  else s

def inputsOf (s : Sequencer) (frame : Nat) : Table Int PendingInput :=
  (s.pending.get frame).getD ∅

/-- An input loses to what the frame holds already, unless that came late and the input
asks for the frame. -/
def loses (s : Sequencer) (player : Int) (frame : Nat) (folded : Bool) : Bool :=
  match (s.inputsOf frame).get player with
  | some existing => !existing.folded || folded
  | none => false

def store (s : Sequencer) (player : Int) (frame : Nat) (input : PendingInput) : Sequencer :=
  { s with pending := s.pending.set frame ((s.inputsOf frame).set player input) }

def submitInput (s : Sequencer) (player : Int) (original : Nat) (payload : Payload) :
    Sequencer × Except SubmitError Nat :=
  if ¬ s.players.contains player then (s, .error .playerUnknown)
  else if s.maxInput < payload.length then (s, .error .payloadTooBig)
  else
    let folded := decide (original < s.next)
    let frame := if folded then s.next else original
    if (s.next + s.window) % 2 ^ 32 < frame then (s, .error .frameTooEarly)
    else
      let remembered := decide (s.replayFloor ≤ original)
      let slot := s.slot player original
      if remembered ∧ slot.target ≠ 0 ∧ slot.original = original then (s, .ok slot.target)
      else if s.loses player frame folded then
        (s.remember player original frame remembered, .ok frame)
      else
        ((s.store player frame { payload, folded }).remember player original
          frame remembered, .ok frame)

/-- Cuts the next frame; absent when the frame IDs are exhausted, where the source
panics. -/
def advance (s : Sequencer) : Option (Frame × Sequencer) :=
  if s.next = 2 ^ 32 - 1 then none
  else
    let inputs := s.inputsOf s.next
    let players := (inputs.pairs.map Prod.fst).mergeSort fun a b => decide (a ≤ b)
    let payload (player : Int) := ((inputs.get player).map PendingInput.payload).getD []
    some
      ({ id := s.next
         inputs := players.map fun player => { player, payload := payload player } },
       { s with
         pending := if 0 < inputs.pairs.length then s.pending.remove s.next else s.pending
         next := (s.next + 1) % 2 ^ 32 })

end Sequencer

end Roost.Lockstep
