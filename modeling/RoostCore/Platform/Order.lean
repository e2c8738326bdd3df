import RoostCore.Go.Reader
import RoostCore.Go.Text
import RoostCore.Go.Time
import RoostCore.Updates

/-! Paid orders and the functions that change their durable record: the claim of a delivery
attempt, the record of its outcome and the two operator actions. -/
namespace Roost.Platform
open Go Updates

inductive DeliveryState where
  | reserved
  | delivered
  | exhausted
  | settled
  deriving DecidableEq, Repr

structure Order where
  orderID : String := ""
  playerID : Int := 0
  channel : String := ""
  productID : String := ""
  amountMinor : Int := 0
  currency : String := ""
  payloadDigest : String := ""
  state : DeliveryState := .reserved
  attempts : Int := 0
  /-- It never resets on reopen. -/
  attemptSequence : Nat := 0
  pendingAttempts : List Nat := []
  maxAttempts : Int := 0
  nextAttemptAtUnix : Int := 0
  lastError : Bytes := []
  paidAtUnix : Int := 0
  createdAtUnix : Int := 0
  deliveredAtUnix : Int := 0
  updatedAtUnix : Int := 0
  reopens : Int := 0
  adminNote : String := ""
  adminActionAtUnix : Int := 0
  deriving DecidableEq, Repr

/-- The sentinel that an error of the service wraps; `store` is any error of the order store. -/
inductive Fault where
  | requestInvalid
  | signatureInvalid
  | orderInvalid
  | orderMismatch
  | conflict
  | deliveryHeld
  | deliveryFailed
  | deliveryExpired
  | orderSettled
  | notResolvable
  | adminNoteRequired
  | store
  deriving DecidableEq, Repr

structure CallbackPayload where
  orderID : String
  playerID : Int
  channel : String
  productID : String
  amountMinor : Int
  currency : String
  paidAtUnix : Int

/-- What the service is configured with; the signature, the JSON decoder and the digest of an
order's contents are functions of their input and nothing else. -/
structure Config where
  verify : Bytes → String → Bool
  decode : Bytes → Option CallbackPayload
  contentDigest : Order → String
  deliveryAttempts : Int
  deliveryBackoff : Duration

def maxPayloadBytes : Nat := 16 * 1024

def maxOrderIDBytes : Nat := 128

def maxProductIDBytes : Nat := 128

def maxAdminNoteBytes : Nat := 512

def maxBackoffMultiplier : Int := 8

def int32 (n : Int) : Int := Int.bmod n (2 ^ 32)

namespace Order

def terminal (o : Order) : Bool :=
  o.state == .delivered || o.state == .exhausted || o.state == .settled

def due (o : Order) (nowUnix : Int) : Bool :=
  if o.terminal then false else o.nextAttemptAtUnix == 0 || nowUnix ≥ o.nextAttemptAtUnix

def validate (o : Order) : Except Fault Unit :=
  if trimSpace o.orderID = "" ∨ o.orderID.utf8ByteSize > maxOrderIDBytes then .error .orderInvalid
  else if o.playerID ≤ 0 then .error .orderInvalid
  else if trimSpace o.productID = "" ∨ o.productID.utf8ByteSize > maxProductIDBytes then .error .orderInvalid
  else if o.amountMinor ≤ 0 then .error .orderInvalid
  else if o.maxAttempts ≤ 0 then .error .orderInvalid
  else .ok ()

end Order

def newOrder (cfg : Config) (payload : CallbackPayload) (now : Time) : Order where
  orderID := trimSpace payload.orderID
  playerID := payload.playerID
  channel := payload.channel
  productID := trimSpace payload.productID
  amountMinor := payload.amountMinor
  currency := payload.currency
  state := .reserved
  maxAttempts := int32 cfg.deliveryAttempts
  paidAtUnix := if payload.paidAtUnix = 0 then now.unix else payload.paidAtUnix
  createdAtUnix := now.unix
  updatedAtUnix := now.unix

/-- The part of `HandleCallback` before the order store: the order that the payload asks for. -/
def readCallback (cfg : Config) (raw : Bytes) (signature : String) (now : Time) : Except Fault Order :=
  if raw.length = 0 ∨ raw.length > maxPayloadBytes then .error .requestInvalid
  else if cfg.verify raw signature = false then .error .signatureInvalid
  else
    match cfg.decode raw with
    | none => .error .requestInvalid
    | some payload =>
        let order := newOrder cfg payload now
        match order.validate with
        | .error fault => .error fault
        | .ok () => .ok { order with payloadDigest := cfg.contentDigest order }

/-- The product wraps as an `int64` does. -/
def backoff (cfg : Config) (attempt : Int) : Duration :=
  let attempt := if attempt < 1 then 1 else attempt
  let multiplier := if attempt > maxBackoffMultiplier then maxBackoffMultiplier else attempt
  Int.bmod (cfg.deliveryBackoff * multiplier) (2 ^ 64)

def containsAttempt (pending : List Nat) (generation : Nat) : Bool := pending.any (· == generation)

def removeAttempt (pending : List Nat) (generation : Nat) : List Nat := pending.filter (· != generation)

/-- The outcome that the claim of `AttemptDelivery` leaves to its caller. -/
inductive ClaimOutcome where
  | alreadyDelivered
  | exhausted
  | settled
  | held
  | claimed
  deriving DecidableEq, Repr

/-- The function that `AttemptDelivery` gives to the first update. -/
def claim (cfg : Config) (now : Time) : Option Order → Decision Order Fault (Order × ClaimOutcome)
  | none => .fail .orderInvalid
  | some current =>
      if current.state = .delivered then .keep (current, .alreadyDelivered)
      else if current.state = .exhausted then .keep (current, .exhausted)
      else if current.state = .settled then .keep (current, .settled)
      else if current.due now.unix = false then .keep (current, .held)
      else if current.pendingAttempts.length > 0 ∨ current.attempts ≥ current.maxAttempts then
        -- an elapsed backoff does not prove that an external call did not apply
        let spent := { current with state := .exhausted, nextAttemptAtUnix := 0, updatedAtUnix := now.unix }
        .write spent (spent, .exhausted)
      else if current.attemptSequence = 2 ^ 64 - 1 then .fail .conflict
      else
        let next :=
          { current with
            attempts := current.attempts + 1
            nextAttemptAtUnix := Time.unix (now + backoff cfg (current.attempts + 1))
            updatedAtUnix := now.unix
            attemptSequence := current.attemptSequence + 1
            pendingAttempts := current.pendingAttempts ++ [current.attemptSequence + 1] }
        .write next (next, .claimed)

/-- The function that records a delivery that took effect; the flag is `raced`. -/
def complete (generation : Nat) (nowUnix : Int) : Option Order → Decision Order Fault (Order × Bool)
  | none => .fail .conflict
  | some current =>
      if current.state = .settled ∨ containsAttempt current.pendingAttempts generation = false then
        .keep (current, false)
      else
        let rest := { current with pendingAttempts := removeAttempt current.pendingAttempts generation }
        if current.state = .delivered then .write rest (rest, true)
        else
          let next :=
            { rest with
              state := .delivered, deliveredAtUnix := nowUnix, updatedAtUnix := nowUnix
              nextAttemptAtUnix := 0, lastError := [] }
          .write next (next, false)

/-- An error of the deliverer: its text, and whether it wraps `ErrDeliveryNotApplied`. -/
structure Cause where
  notApplied : Bool
  text : Bytes
  deriving DecidableEq, Repr

def truncate (text : Bytes) (limit : Nat) : Bytes :=
  if text.length ≤ limit then text else text.take limit

/-- The function that `recordFailure` gives to its update. -/
def recordFailure (generation : Nat) (cause : Cause) (nowUnix : Int) :
    Option Order → Decision Order Fault Order
  | none => .fail .conflict
  | some current =>
      if current.state = .settled ∨ containsAttempt current.pendingAttempts generation = false then
        .keep current
      else
        let rest :=
          if cause.notApplied then
            { current with pendingAttempts := removeAttempt current.pendingAttempts generation }
          else current
        if rest.state = .delivered ∨ generation ≠ rest.attemptSequence then .write rest rest
        else
          let noted := { rest with lastError := truncate cause.text 512, updatedAtUnix := nowUnix }
          let next :=
            if cause.notApplied = false ∨ noted.attempts ≥ noted.maxAttempts then
              { noted with state := .exhausted, nextAttemptAtUnix := 0 }
            else noted
          .write next next

def validateAdminNote (note : String) : Except Fault String :=
  let trimmed := trimSpace note
  if trimmed = "" ∨ trimmed.utf8ByteSize > maxAdminNoteBytes then .error .adminNoteRequired
  else .ok trimmed

/-- The function that `ReopenDelivery` gives to its update. -/
def reopenDelivery (note : String) (nowUnix : Int) : Option Order → Decision Order Fault Order
  | none => .fail .orderInvalid
  | some current =>
      if current.pendingAttempts.length ≠ 0 then .fail .notResolvable
      else if current.state = .exhausted then
        let next :=
          { current with
            state := .reserved, attempts := 0, nextAttemptAtUnix := 0, lastError := []
            reopens := int32 (current.reopens + 1), adminNote := note
            adminActionAtUnix := nowUnix, updatedAtUnix := nowUnix }
        .write next next
      else .fail .notResolvable

/-- The function that `SettleOutOfBand` gives to its update. -/
def settleOutOfBand (note : String) (nowUnix : Int) : Option Order → Decision Order Fault Order
  | none => .fail .orderInvalid
  | some current =>
      if current.pendingAttempts.length ≠ 0 then .fail .notResolvable
      else if current.state = .exhausted then
        let next :=
          { current with
            state := .settled, nextAttemptAtUnix := 0, adminNote := note
            adminActionAtUnix := nowUnix, updatedAtUnix := nowUnix }
        .write next next
      else .fail .notResolvable

end Roost.Platform
