import RoostCore.Platform.Order
import RoostCore.Run

/-! Calls of the service about one order, in any number of processes. A call moves through its
store calls and the call of the deliverer; each store call is executed any number of times,
also after its caller was told of an error or died, and the goods of a started delivery take
effect at any later moment until the deliverer said that they never will. -/
namespace Roost.Platform
open Go Updates

structure Receipt where
  order : Order := {}
  replayed : Bool := false
  delivered : Bool := false
  deriving DecidableEq, Repr

structure Answer where
  receipt : Receipt := {}
  error : Option Fault := none
  deriving DecidableEq, Repr

/-- Who called `AttemptDelivery`: a retry pass, a callback that recorded the order, or a
callback that found it recorded. -/
inductive Caller where
  | direct
  | created (order : Order)
  | replayed (receipt : Receipt)

/-- The answer of the call that made the attempt. -/
def Caller.answer (attempt : Answer) : Caller → Answer
  | .direct => attempt
  | .created order => if attempt.error.isSome then { attempt with receipt := { order } } else attempt
  | .replayed receipt =>
      if attempt.error.isSome then { attempt with receipt }
      else { receipt := { receipt with order := attempt.receipt.order, delivered := attempt.receipt.delivered } }

/-- The store call that a call of the service waits for. -/
inductive StoreCall where
  | create (order : Order)
  | get (order : Order)
  | claim (caller : Caller) (now : Time)
  | complete (caller : Caller) (generation : Nat) (nowUnix : Int)
  | recordFailure (caller : Caller) (generation : Nat) (cause : Cause) (nowUnix : Int)
  | reopen (note : String) (nowUnix : Int)
  | settle (note : String) (nowUnix : Int)

/-- A store call is live until its caller was told of an error or died. -/
inductive Stage where
  | idle
  | storing (call : StoreCall) (live : Bool)
  | claimed (caller : Caller) (order : Order) (now : Time)
  | delivering (caller : Caller) (order : Order) (now : Time)
  | answering (answer : Answer)
  | finished

/-- What happens to the order, seen from outside; a delivery ends with no error or with its
cause. -/
inductive Event where
  | claimed (t generation : Nat)
  | started (t : Nat)
  | applied (t : Nat)
  | ended (t : Nat) (outcome : Option Cause)
  | returned (t : Nat) (answer : Answer)
  deriving DecidableEq

/-- The deliverer said that the delivery of the call has and will have no effect. -/
def Event.denies (t : Nat) : Event → Bool
  | .ended u (some cause) => u == t && cause.notApplied
  | _ => false

/-- The record of the order, the calls and the history with its latest event first. -/
structure World where
  order : Option Order
  calls : Nat → Stage
  history : List Event

namespace StoreCall

/-- The record after one execution of the call at the store. -/
def store (cfg : Config) (o : Option Order) : StoreCall → Option Order
  | .create order => some (o.getD order)
  | .get _ => o
  | .claim _ now => (Platform.claim cfg now o).store o
  | .complete _ generation nowUnix => (Platform.complete generation nowUnix o).store o
  | .recordFailure _ generation cause nowUnix => (Platform.recordFailure generation cause nowUnix o).store o
  | .reopen note nowUnix => (reopenDelivery note nowUnix o).store o
  | .settle note nowUnix => (settleOutOfBand note nowUnix o).store o

/-- What the caller does with the result of an execution on the record. -/
def follow (cfg : Config) (o : Option Order) (now : Time) : StoreCall → Stage
  | .create order =>
      match o with
      | none => .storing (.claim (.created order) now) true
      | some _ => .storing (.get order) true
  | .get order =>
      match o with
      | none => .answering { error := some .conflict }
      | some existing =>
          if existing.payloadDigest ≠ order.payloadDigest then .answering { error := some .orderMismatch }
          else
            let receipt : Receipt :=
              { order := existing, replayed := true, delivered := existing.state == .delivered }
            if receipt.delivered then .answering { receipt } else .storing (.claim (.replayed receipt) now) true
  | .claim caller start =>
      match (Platform.claim cfg start o).result with
      | .error fault => .answering (caller.answer { error := some fault })
      | .ok (order, .settled) => .answering (caller.answer { receipt := { order }, error := some .orderSettled })
      | .ok (order, .alreadyDelivered) =>
          .answering (caller.answer { receipt := { order, replayed := true, delivered := true } })
      | .ok (order, .exhausted) =>
          .answering (caller.answer { receipt := { order }, error := some .deliveryExpired })
      | .ok (order, .held) => .answering (caller.answer { receipt := { order }, error := some .deliveryHeld })
      | .ok (order, .claimed) => .claimed caller order start
  | .complete caller generation nowUnix =>
      match (Platform.complete generation nowUnix o).result with
      | .error fault => .answering (caller.answer { error := some fault })
      | .ok (order, raced) =>
          if order.state = .settled then
            .answering (caller.answer { receipt := { order }, error := some .orderSettled })
          else if order.state ≠ .delivered then
            .answering (caller.answer { receipt := { order }, error := some .conflict })
          else .answering (caller.answer { receipt := { order, replayed := raced, delivered := true } })
  | .recordFailure caller generation cause nowUnix =>
      match (Platform.recordFailure generation cause nowUnix o).result with
      | .error fault => .answering (caller.answer { error := some fault })
      | .ok order =>
          .answering (caller.answer
            { receipt := { order }
              error := some (if order.state = .exhausted then .deliveryExpired else .deliveryFailed) })
  | .reopen _ _ | .settle _ _ => .finished

/-- The answer of a call whose store call reported an error; an operator call has no receipt. -/
def failure : StoreCall → Option Answer
  | .create _ | .get _ => some { error := some .store }
  | .claim caller _ | .complete caller _ _ | .recordFailure caller _ _ _ =>
      some (caller.answer { error := some .store })
  | .reopen _ _ | .settle _ _ => none

end StoreCall

/-- The event of a call that reaches a stage. -/
def Stage.event (t : Nat) : Stage → Option Event
  | .claimed _ order _ => some (.claimed t order.attemptSequence)
  | _ => none

inductive Input where
  | handleCallback (t : Nat) (raw : Bytes) (signature : String) (now : Time)
  | attemptDelivery (t : Nat) (now : Time)
  | reopenDelivery (t : Nat) (note : String) (now : Time)
  | settleOutOfBand (t : Nat) (note : String) (now : Time)
  /-- The store call is executed and reports; the caller reads its clock. -/
  | execute (t : Nat) (now : Time)
  /-- The store call is executed and the store's loop goes on. -/
  | reexecute (t : Nat)
  | storeError (t : Nat)
  | crash (t : Nat)
  | deliver (t : Nat)
  | apply (t : Nat)
  | finish (t : Nat) (outcome : Option Cause)
  | reply (t : Nat)

namespace World

def init : World := { order := none, calls := fun _ => .idle, history := [] }

def goto (w : World) (t : Nat) (stage : Stage) : World :=
  { w with calls := Function.update w.calls t stage }

def log (w : World) (event : Option Event) : World :=
  { w with history := event.toList ++ w.history }

/-- The call begins, if it did not yet. -/
def enter (w : World) (t : Nat) (stage : Stage) : World :=
  match w.calls t with
  | .idle => w.goto t stage
  | _ => w

def execute (cfg : Config) (w : World) (t : Nat) (now : Time) : World :=
  match w.calls t with
  | .storing call live =>
      let after := if live then call.follow cfg w.order now else .finished
      ({ w with order := call.store cfg w.order }.goto t after).log (after.event t)
  | _ => w

def reexecute (cfg : Config) (w : World) (t : Nat) : World :=
  match w.calls t with
  | .storing call _ => { w with order := call.store cfg w.order }
  | _ => w

def storeError (w : World) (t : Nat) : World :=
  match w.calls t with
  | .storing call true => (w.goto t (.storing call false)).log (call.failure.map (.returned t))
  | _ => w

/-- The caller dies; a store call that it sent may still be executed. -/
def crash (w : World) (t : Nat) : World :=
  match w.calls t with
  | .storing call _ => w.goto t (.storing call false)
  | _ => w.goto t .finished

def deliver (w : World) (t : Nat) : World :=
  match w.calls t with
  | .claimed caller order now => (w.goto t (.delivering caller order now)).log (some (.started t))
  | _ => w

/-- A started delivery takes effect, unless the deliverer denied it. -/
def apply (w : World) (t : Nat) : World :=
  if .started t ∈ w.history ∧ .applied t ∉ w.history ∧ w.history.any (Event.denies t) = false then w.log (some (.applied t)) else w

/-- The deliverer returns no error only when its call took effect, and that it did not apply
only when it had no effect. -/
def Truthful (w : World) (t : Nat) : Option Cause → Prop
  | none => .applied t ∈ w.history
  | some cause => cause.notApplied = true → .applied t ∉ w.history

instance (w : World) (t : Nat) : (outcome : Option Cause) → Decidable (w.Truthful t outcome)
  | none => inferInstanceAs (Decidable (_ ∈ _))
  | some _ => inferInstanceAs (Decidable (_ → _))

def finish (w : World) (t : Nat) (outcome : Option Cause) : World :=
  match w.calls t with
  | .delivering caller order now =>
      if w.Truthful t outcome then
        (w.goto t (.storing (match outcome with
          | none => .complete caller order.attemptSequence now.unix
          | some cause => .recordFailure caller order.attemptSequence cause now.unix) true)).log
            (some (.ended t outcome))
      else w
  | _ => w

def reply (w : World) (t : Nat) : World :=
  match w.calls t with
  | .answering answer => (w.goto t .finished).log (some (.returned t answer))
  | _ => w

def step (cfg : Config) (orderID : String) (w : World) : Input → World
  | .handleCallback t raw signature now =>
      match readCallback cfg raw signature now with
      | .error fault => w.enter t (.answering { error := some fault })
      | .ok order => if order.orderID = orderID then w.enter t (.storing (.create order) true) else w
  | .attemptDelivery t now =>
      if trimSpace orderID = "" then w.enter t (.answering { error := some .requestInvalid })
      else w.enter t (.storing (.claim .direct now) true)
  | .reopenDelivery t note now =>
      match validateAdminNote note with
      | .error _ => w.enter t .finished
      | .ok note => w.enter t (.storing (.reopen note now.unix) true)
  | .settleOutOfBand t note now =>
      match validateAdminNote note with
      | .error _ => w.enter t .finished
      | .ok note => w.enter t (.storing (.settle note now.unix) true)
  | .execute t now => w.execute cfg t now
  | .reexecute t => w.reexecute cfg t
  | .storeError t => w.storeError t
  | .crash t => w.crash t
  | .deliver t => w.deliver t
  | .apply t => w.apply t
  | .finish t outcome => w.finish t outcome
  | .reply t => w.reply t

end World

end Roost.Platform
