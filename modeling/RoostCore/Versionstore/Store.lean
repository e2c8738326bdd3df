import RoostCore.Scripts
import RoostCore.Versionstore.Envelope

/-! The Redis store of versioned values. Calls of any number of clients run in small steps:
a read of one key, the preparation of a write, a send, the reply or its loss, and the
judgement of a write whose reply was lost. A command that was sent executes at any later
moment, once or never. -/
namespace Roost.Versionstore
open Go (Bytes)

inductive WriteKind where
  | create
  | update
  | delete
  deriving DecidableEq

/-- One write command exactly as sent. A delete has no next envelope and no token. -/
structure PendingWrite (κ : Type) extends Scripts.Write κ Bytes where
  kind : WriteKind
  token : Bytes
  version : Nat
  deriving DecidableEq

/-- The writes that one script makes. The number tells prepared commands apart. -/
structure Batch (κ : Type) where
  id : Nat
  writes : List (PendingWrite κ)
  deriving DecidableEq

def Batch.script {κ : Type} (batch : Batch κ) : Scripts.Script κ Bytes :=
  ⟨batch.id, batch.writes.map PendingWrite.toWrite⟩

inductive Verdict where
  | unproven
  | applied
  | lost
  | notRun
  deriving DecidableEq

variable {κ T : Type} [DecidableEq κ]

/-- What became of a write, from what its key holds now. -/
def judge (write : PendingWrite κ) : Option Bytes → Verdict
  | none => .unproven
  | some current =>
    if write.base = some current then .notRun
    else
      match parseEnvelope current with
      | .error _ => .unproven
      | .ok now =>
        if write.token ≠ [] ∧ now.tokenFor write.version = some write.token then .applied
        else
          match write.base.map parseEnvelope with
          | some (.ok base) =>
            -- the key has moved on from the base, and not by this write
            match now.tokenFor base.version, base.tokens with
            | some token, first :: _ => if token = first ∧ base.version < now.version then .lost else .unproven
            | _, _ => .unproven
          | _ => .unproven

/-- The script is all or nothing, so a verdict on one key is a verdict on all. -/
def judgeAll (verdicts : List Verdict) : Verdict :=
  if .applied ∈ verdicts then .applied
  else if .lost ∈ verdicts then .lost
  else if .notRun ∈ verdicts then .notRun
  else .unproven

/-- What `mutate` returns: an error, `save == false`, or the next value. -/
inductive Decision (α : Type) where
  | fail
  | decline
  | save (next : α)

structure Versioned (T : Type) where
  value : T
  version : Nat
  deriving DecidableEq

/-- A store as `NewRedisStore` builds it: defaults are filled in. -/
structure Config (T : Type) where
  encode : T → Option Bytes
  decode : Bytes → Option T
  zero : T
  maxAttempts : Nat
  history : Nat
  attempts_pos : 0 < maxAttempts
  history_pos : 0 < history

/-- A call of the store. `loop` is the read, mutate and write loop over one or more keys;
only an `Update` of one key can be resumed. -/
inductive Operation (κ T : Type) where
  | loop (keys : List κ) (mutate : List T → List Bool → Decision (List T)) (resumable : Bool)
  | create (key : κ) (value : T)
  | delete (key : κ) (expect : Nat) (accepts : T → Bool)

def Operation.updateAll (keys : List κ) (mutate : List T → List Bool → Decision (List T)) : Operation κ T :=
  .loop keys mutate false

def Operation.update (key : κ) (mutate : T → Bool → Decision T) : Operation κ T :=
  .loop [key] (fun values found =>
    match values, found with
    | [value], [present] =>
      match mutate value present with
      | .fail => .fail
      | .decline => .decline
      | .save next => .save [next]
    | _, _ => .fail) true

/-- What a call returns. A first command that the server refuses or that never leaves, an
error of a read, of `mutate` or of the codec are all `failed`. -/
inductive Report (κ T : Type) where
  | applied (results : List (Versioned T))
  | declined (current : List (Versioned T))
  | created (result : Versioned T)
  | notCreated
  | deleted
  | mismatch
  | conflict
  | unknown (batch : Batch κ)
  | tokenMismatch
  | failed
  deriving DecidableEq

/-- Where a write that is being settled stands. -/
inductive Wait (κ : Type) where
  | send
  | awaiting (seq : Nat) (reply : Option Bool)
  | look (todo : List (PendingWrite κ)) (verdicts : List Verdict)
  deriving DecidableEq

structure Settling (κ T : Type) where
  batch : Batch κ
  values : List T
  ambiguous : Bool
  resumed : Bool
  wait : Wait κ
  deriving DecidableEq

inductive Stage (κ T : Type) where
  | reading (todo : List κ) (raws : List (Option Bytes))
  | settling (state : Settling κ T)
  | done (report : Report κ T)
  deriving DecidableEq

/-- A call with its budget of sends and the batches it has settled, the latest first. -/
structure Call (κ T : Type) where
  op : Operation κ T
  remaining : Nat
  tried : List (Batch κ)
  stage : Stage κ T

structure Command (κ : Type) where
  caller : Nat
  seq : Nat
  batch : Batch κ
  deriving DecidableEq

/-- An execution that passed its comparisons, with what its keys held before and after. -/
structure Effect (κ : Type) where
  batch : Batch κ
  before : List (Option Bytes)
  after : List (Option Bytes)
  deriving DecidableEq

/-- The store, the commands on their way and the calls; `batches` and `log` are a record of
what was prepared and what took effect. -/
structure World (κ T : Type) where
  store : κ → Option Bytes
  batches : List (Batch κ)
  pool : List (Command κ)
  log : List (Effect κ)
  sends : Nat
  calls : Nat → Option (Call κ T)

def World.empty : World κ T := ⟨fun _ => none, [], [], [], 0, fun _ => none⟩

variable (cfg : Config T)

def decodeEnvelope (raw : Bytes) : Option (Versioned T) :=
  match parseEnvelope raw with
  | .error _ => none
  | .ok header => (cfg.decode header.payload).map fun value => ⟨value, header.version⟩

/-- What `readRaw` returns for the bytes of a key. -/
def decodeRaw : Option Bytes → Option (Versioned T)
  | none => some ⟨cfg.zero, 0⟩
  | some raw => decodeEnvelope cfg raw

/-- `prepareWrite`: the command that writes `value` over `base`. -/
def prepareWrite (kind : WriteKind) (key : κ) (base : Option Bytes) (value : T) (version : Nat) (token : Bytes) :
    Option (PendingWrite κ) :=
  match cfg.encode value, base.map parseEnvelope with
  | none, _ => none
  | some _, some (.error _) => none
  | some payload, none =>
    some ⟨⟨key, base, some (buildEnvelope payload version token [] cfg.history)⟩, kind, token, version⟩
  | some payload, some (.ok header) =>
    some ⟨⟨key, base, some (buildEnvelope payload version token header.tokens cfg.history)⟩, kind, token, version⟩

/-- The commands of one attempt of the loop, with a token for each. -/
def prepareAll (random : Nat → Nat) : Nat → List κ → List (Option Bytes) → List (Versioned T) → List T →
    Option (List (PendingWrite κ))
  | i, key :: keys, raw :: raws, current :: currents, value :: values =>
    match prepareWrite cfg .update key raw value ((current.version + 1) % 2 ^ 64) (newWriteToken (random i)),
        prepareAll random (i + 1) keys raws currents values with
    | some write, some writes => some (write :: writes)
    | _, _ => none
  | _, [], [], [], [] => some []
  | _, _, _, _, _ => none

/-- `sameWrite`: the value is what the write carries. -/
def sameWrite (write : PendingWrite κ) (value : T) : Option Bool :=
  match cfg.encode value, write.next.map parseEnvelope with
  | some payload, some (.ok header) => some (payload = header.payload)
  | _, _ => none

namespace Call

def finish (call : Call κ T) (report : Report κ T) : Call κ T := { call with stage := .done report }

def settle (call : Call κ T) (batch : Batch κ) (values : List T) (resumed : Bool) : Call κ T :=
  { call with
    tried := batch :: call.tried
    stage := .settling ⟨batch, values, resumed, resumed, if resumed then .look batch.writes [] else .send⟩ }

def wait (call : Call κ T) (state : Settling κ T) (wait : Wait κ) : Call κ T :=
  { call with stage := .settling { state with wait } }

/-- The loop reads all keys again. -/
def reread (call : Call κ T) : Call κ T :=
  match call.op with
  | .loop keys _ _ => { call with stage := .reading keys [] }
  | .create _ _ | .delete _ _ _ => call

/-- What the call makes of a write that took effect. -/
def applied (call : Call κ T) (state : Settling κ T) : Call κ T :=
  match call.op with
  | .loop _ _ _ =>
    call.finish (.applied (List.zipWith (fun value write => ⟨value, write.version⟩) state.values state.batch.writes))
  | .create _ value => call.finish (.created ⟨value, 1⟩)
  | .delete _ _ _ => call.finish .deleted

/-- What the call makes of a write that did not take effect and cannot any more. -/
def lost (call : Call κ T) (state : Settling κ T) : Call κ T :=
  match call.op with
  | .loop _ _ _ => if !state.resumed && call.remaining == 0 then call.finish .conflict else call.reread
  | .create _ _ => call.finish .notCreated
  | .delete _ _ _ => call.finish .mismatch

end Call

/-- A call before its first command; `earlier` is the write that `Resume` has handed over. -/
def begin (op : Operation κ T) (earlier : Option (Batch κ × PendingWrite κ)) : Call κ T :=
  match op, earlier with
  | .loop keys _ _, none =>
    let call : Call κ T := ⟨op, cfg.maxAttempts, [], .reading keys []⟩
    if keys = [] ∨ ¬ keys.Nodup then call.finish .failed else call
  | .loop keys mutate _, some (batch, write) =>
    -- `resumeUpdate`: the same update from the same base yields the same bytes
    let call : Call κ T := ⟨op, cfg.maxAttempts, [], .reading keys []⟩
    if write.kind ≠ .update then call.finish .tokenMismatch
    else
      match decodeRaw cfg write.base with
      | none => call.finish .failed
      | some base =>
        match mutate [base.value] [write.base.isSome] with
        | .fail => call.finish .failed
        | .decline => call.finish .tokenMismatch
        | .save [next] =>
          match sameWrite cfg write next with
          | none => call.finish .failed
          | some false => call.finish .tokenMismatch
          | some true => call.settle batch [next] true
        | .save _ => call.finish .failed
  | .create _ _, none => ⟨op, cfg.maxAttempts, [], .reading [] []⟩
  | .create _ value, some (batch, write) =>
    let call : Call κ T := ⟨op, cfg.maxAttempts, [], .reading [] []⟩
    if write.kind ≠ .create then call.finish .tokenMismatch
    else
      match sameWrite cfg write value with
      | none => call.finish .failed
      | some false => call.finish .tokenMismatch
      | some true => call.settle batch [value] true
  | .delete key _ _, none => ⟨op, cfg.maxAttempts, [], .reading [key] []⟩
  | .delete key expect _, some (batch, write) =>
    let call : Call κ T := ⟨op, cfg.maxAttempts, [], .reading [key] []⟩
    if write.kind ≠ .delete then call.finish .tokenMismatch
    else if write.version ≠ expect then call.finish .tokenMismatch
    else call.settle batch [] true

/-- The key of a call that can be resumed. -/
def Operation.resumeKey : Operation κ T → Option κ
  | .loop [key] _ true => some key
  | .loop _ _ _ => none
  | .create key _ => some key
  | .delete key _ _ => some key

/-- `resumedWrite`: the open write of an earlier call on the same key. -/
def resumedWrite (w : World κ T) (op : Operation κ T) (earlier : Option Nat) : Option (Batch κ × PendingWrite κ) :=
  match earlier.bind w.calls with
  | some ⟨before, _, _, .done (.unknown batch)⟩ =>
    match batch.writes with
    | [write] => if before.resumeKey = some write.key ∧ op.resumeKey = some write.key then some (batch, write) else none
    | _ => none
  | _ => none

/-- The next step of a call that has read its keys: the writes to prepare, or the end. -/
def decide (call : Call κ T) (raws : List (Option Bytes)) (random : Nat → Nat) :
    List (PendingWrite κ) × List T ⊕ Report κ T :=
  match call.op with
  | .loop keys mutate _ =>
    if call.remaining = 0 then .inr .conflict
    else
      match raws.mapM (decodeRaw cfg) with
      | none => .inr .failed
      | some currents =>
        match mutate (currents.map Versioned.value) (raws.map Option.isSome) with
        | .fail => .inr .failed
        | .decline => .inr (.declined currents)
        | .save values =>
          match prepareAll cfg random 0 keys raws currents values with
          | none => .inr .failed
          | some writes => .inl (writes, values)
  | .create key value =>
    match prepareWrite cfg .create key none value 1 (newWriteToken (random 0)) with
    | none => .inr .failed
    | some write => .inl ([write], [value])
  | .delete key expect accepts =>
    match raws with
    | [some raw] =>
      match decodeEnvelope cfg raw with
      | none => .inr .failed
      | some current =>
        if current.version ≠ expect then .inr .mismatch
        else if !accepts current.value then .inr .mismatch
        else .inl ([⟨⟨key, some raw, none⟩, .delete, [], current.version⟩], [])
    | _ => if expect = 0 then .inr .deleted else .inr .mismatch

inductive Input (κ T : Type) where
  | start (call : Nat) (op : Operation κ T) (resume : Option Nat)
  | read (call : Nat) (fails : Bool)
  | prepare (call : Nat) (random : Nat → Nat)
  | send (call : Nat) (refused : Bool)
  | receive (call : Nat)
  | lose (call : Nat)
  | look (call : Nat) (fails cancelled : Bool)
  | execute (index : Nat)

namespace World
variable (w : World κ T)

@[simps store batches pool]
def setCall (c : Nat) (call : Call κ T) : World κ T := { w with calls := Function.update w.calls c (some call) }

/-- `readRaw` of the next key. -/
def read (c : Nat) (call : Call κ T) (fails : Bool) : World κ T :=
  match call.stage with
  | .reading (key :: todo) raws =>
    if fails then w.setCall c (call.finish .failed)
    else
      match decodeRaw cfg (w.store key) with
      | none => w.setCall c (call.finish .failed)
      | some _ => w.setCall c { call with stage := .reading todo (raws ++ [w.store key]) }
  | _ => w

def prepare (c : Nat) (call : Call κ T) (random : Nat → Nat) : World κ T :=
  match call.stage with
  | .reading [] raws =>
    match Versionstore.decide cfg call raws random with
    | .inr report => w.setCall c (call.finish report)
    | .inl (writes, values) =>
      let batch : Batch κ := ⟨w.batches.length, writes⟩
      let known : World κ T := { w with batches := w.batches ++ [batch] }
      known.setCall c (call.settle batch values false)
  | _ => w

/-- Sends the command. A refused one never executes. -/
def send (c : Nat) (call : Call κ T) (refused : Bool) : World κ T :=
  match call.stage with
  | .settling state =>
    match state.wait with
    | .send =>
      let call := { call with remaining := call.remaining - 1 }
      if !refused then
        let sent : World κ T := { w with pool := w.pool ++ [⟨c, w.sends, state.batch⟩], sends := w.sends + 1 }
        sent.setCall c (call.wait state (.awaiting w.sends none))
      else if state.ambiguous then
        -- an earlier send may still have landed
        w.setCall c (call.wait state (.look state.batch.writes []))
      else w.setCall c (call.finish .failed)
    | _ => w
  | _ => w

def receive (c : Nat) (call : Call κ T) : World κ T :=
  match call.stage with
  | .settling state =>
    match state.wait with
    | .awaiting _ (some true) => w.setCall c (call.applied state)
    | .awaiting _ (some false) =>
      if state.ambiguous then w.setCall c (call.wait state (.look state.batch.writes []))
      else w.setCall c (call.lost state)
    | _ => w
  | _ => w

/-- The reply is lost: the call gives up waiting. -/
def lose (c : Nat) (call : Call κ T) : World κ T :=
  match call.stage with
  | .settling state =>
    match state.wait with
    | .awaiting _ _ =>
      w.setCall c (call.wait { state with ambiguous := true } (.look state.batch.writes []))
    | _ => w
  | _ => w

/-- Reads one key of an open write, or draws the conclusion from what was read. -/
def look (c : Nat) (call : Call κ T) (fails cancelled : Bool) : World κ T :=
  match call.stage with
  | .settling state =>
    match state.wait with
    | .look (write :: todo) verdicts =>
      if fails then w.setCall c (call.finish (.unknown state.batch))
      else
        w.setCall c (call.wait state (.look todo (verdicts ++ [judge write (w.store write.key)])))
    | .look [] verdicts =>
      match judgeAll verdicts with
      | .applied => w.setCall c (call.applied state)
      | .lost => w.setCall c (call.lost state)
      | .unproven => w.setCall c (call.finish (.unknown state.batch))
      | .notRun =>
        if call.remaining = 0 ∨ cancelled then w.setCall c (call.finish (.unknown state.batch))
        else w.setCall c (call.wait state .send)
    | _ => w
  | _ => w

/-- Hands a reply to the call that waits for this command. -/
def deliver (command : Command κ) (result : Bool) : World κ T :=
  match w.calls command.caller with
  | some call =>
    match call.stage with
    | .settling state =>
      match state.wait with
      | .awaiting seq none =>
        if seq = command.seq then
          w.setCall command.caller (call.wait state (.awaiting seq (some result)))
        else w
      | _ => w
    | _ => w
  | none => w

def execute (index : Nat) : World κ T :=
  match w.pool[index]? with
  | none => w
  | some command =>
    let script := command.batch.script
    let w : World κ T := { w with pool := w.pool.eraseIdx index }
    if script.Passes w.store then
      let after := script.apply w.store
      let effect : Effect κ :=
        ⟨command.batch, command.batch.writes.map (fun write => w.store write.key),
          command.batch.writes.map (fun write => after write.key)⟩
      let done : World κ T := { w with store := after, log := w.log ++ [effect] }
      done.deliver command true
    else w.deliver command false

def act (c : Nat) (step : Call κ T → World κ T) : World κ T :=
  match w.calls c with
  | none => w
  | some call => step call

def step : Input κ T → World κ T
  | .start c op resume =>
    if (w.calls c).isSome then w else w.setCall c (begin cfg op (resumedWrite w op resume))
  | .read c fails => w.act c (fun call => w.read cfg c call fails)
  | .prepare c random => w.act c (fun call => w.prepare cfg c call random)
  | .send c refused => w.act c (fun call => w.send c call refused)
  | .receive c => w.act c (fun call => w.receive c call)
  | .lose c => w.act c (fun call => w.lose c call)
  | .look c fails cancelled => w.act c (fun call => w.look c call fails cancelled)
  | .execute index => w.execute index

/-- What the call has done to the store, over its whole life. -/
def effects (call : Call κ T) : List (Effect κ) := w.log.filter fun effect => effect.batch ∈ call.tried

end World

end Roost.Versionstore
