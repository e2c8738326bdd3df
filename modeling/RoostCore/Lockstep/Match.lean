import RoostCore.Lockstep.SnapshotWire

/-! One lockstep match on the server (`match.go`, `snapshot.go`, `history.go`). The match
is driven by one owner; sends and snapshot fetches run beside it, so what has finished by
a tick is an input of the tick. A session that has fallen behind is caught up over the
reliable lane, with pages of history or with a snapshot, and gets no broadcasts until
then. -/
namespace Roost.Lockstep
open Go

/-- The frames that are kept, from `first` on. -/
structure History where
  first : Nat := 0
  frames : List Frame := []

namespace History

/-- Absent when the frame is out of sequence, where the source panics. -/
def append (h : History) (frame : Frame) : Option History :=
  if h.frames = [] then some { first := frame.id, frames := [frame] }
  else if frame.id ≠ h.first + h.frames.length then none
  else some { h with frames := h.frames ++ [frame] }

def latest (h : History) : Nat := if h.frames = [] then 0 else h.first + h.frames.length - 1

/-- The oldest frame that can still be served. -/
def start (h : History) : Nat := max h.first 1

def trimBefore (h : History) (keep : Nat) : History :=
  if h.frames = [] ∨ keep ≤ h.first then h
  else
    let offset := min (keep - h.first) h.frames.length
    { first := h.first + offset, frames := h.frames.drop offset }

def readRange (h : History) (first limit : Nat) : List Frame :=
  if h.frames = [] ∨ limit = 0 then []
  else (h.frames.drop (max first h.first - h.first)).take limit

end History

inductive RecoveryMode where
  | unset | catchup | snapshot | auto | unknown
  deriving DecidableEq, Repr

def defaultSnapshotChunkBytes : Nat := 16 * 2 ^ 10

def defaultSnapshotBytesPerTick : Nat := 64 * 2 ^ 10

def defaultSnapshotUnpacedBytesPerTick : Nat := 16 * 2 ^ 10

def defaultHistoryRetainFrames : Nat := 3600

def minHistoryRetainFrames : Nat := replayHorizon

def defaultMaxDatagramBytes : Nat := 1200

/-- `MaxSnapshotChunkHeaderBytes`. -/
def maxSnapshotChunkHeaderBytes : Nat := 2 + 2 * 10 + 5 + 10 + 1 + 10 + snapshotDigestBytes

/-- Zero selects a default; `provider` tells whether there is a source of snapshots. -/
structure SnapshotConfig where
  provider : Bool := false
  autoCatchupMaxFrames : Int := 0
  maxBytes : Int := 0
  chunkBytes : Int := 0
  bytesPerTick : Int := 0
  unpacedBytesPerTick : Int := 0
  fetchTimeout : Int := 0
  pinFrames : Int := 0

/-- The bound a datagram sender declares, if any. -/
structure DatagramSender where
  payloadLimit : Option Int := none

/-- The message limit a reliable sender declares, and whether it paces to the link. -/
structure ReliableSender where
  messageLimit : Option Int := none
  paces : Bool := false

structure MatchConfig where
  sequencer : SequencerConfig
  redundancyDepth : Int := 0
  maxDatagramBytes : Int := 0
  catchupBatchFrames : Int := 0
  historyRetainFrames : Int := 0
  catchupMaxFailures : Int := 0
  datagrams : Option DatagramSender
  reliable : Option ReliableSender := none
  recovery : RecoveryMode := .unset
  snapshots : SnapshotConfig := {}
  /-- Whether `CommittedFrame` is set. -/
  committed : Bool := false

inductive MatchFault where
  | noDatagrams
  | sequencer (fault : ConfigFault)
  | negativeDatagram (bytes : Int)
  | datagramOver (bytes declared : Int)
  | worstCase (bytes : Nat) (bound : Int)
  | batchOfOne
  | retain (frames : Int)
  | unknownRecovery
  | needsProvider (mode : RecoveryMode)
  | needsReliable (mode : RecoveryMode)
  | negativeSnapshots
  | snapshotBytes (bytes : Int)
  | chunkBytes (bytes limit : Int)
  deriving DecidableEq, Repr

structure SnapshotSettings where
  autoMax : Nat
  maxBytes : Nat
  chunkBytes : Nat
  budget : Nat
  pinFrames : Nat

/-- `cmp.Or` of a setting and its default. -/
def orElse (value : Int) (default : Nat) : Int := if value = 0 then default else value

/-- The automatic retention; zero turns it off. -/
def historyRetention (configured : Int) : Except MatchFault Nat :=
  if configured = 0 then .ok defaultHistoryRetainFrames
  else if configured = -1 then .ok 0
  else if configured < minHistoryRetainFrames then .error (.retain configured)
  else .ok configured.toNat

def datagramBudget (configured : Int) (sender : DatagramSender) : Except MatchFault Int :=
  let declared := sender.payloadLimit.getD 0
  if configured < 0 then .error (.negativeDatagram configured)
  else if configured = 0 ∧ 0 < declared then .ok declared
  else if configured = 0 then .ok defaultMaxDatagramBytes
  else if 0 < declared ∧ declared < configured then .error (.datagramOver configured declared)
  else .ok configured

def resolveSettings (config : MatchConfig) (retain : Nat) :
    Except MatchFault SnapshotSettings := do
  let s := config.snapshots
  if s.autoCatchupMaxFrames < 0 ∨ s.maxBytes < 0 ∨ s.chunkBytes < 0 ∨ s.bytesPerTick < 0 ∨
      s.unpacedBytesPerTick < 0 ∨ s.fetchTimeout < 0 ∨ s.pinFrames < 0 then
    .error .negativeSnapshots
  let maxBytes := orElse s.maxBytes defaultMaxSnapshotBytes
  let chunkBytes := orElse s.chunkBytes defaultSnapshotChunkBytes
  if maxSnapshotBytes < maxBytes then .error (.snapshotBytes maxBytes)
  let limit := (config.reliable.bind ReliableSender.messageLimit).getD 0
  if 0 < limit ∧ limit < chunkBytes + maxSnapshotChunkHeaderBytes then
    .error (.chunkBytes chunkBytes limit)
  let paces := config.reliable.any ReliableSender.paces
  let budget :=
    if paces then orElse s.bytesPerTick defaultSnapshotBytesPerTick
    else orElse s.unpacedBytesPerTick defaultSnapshotUnpacedBytesPerTick
  return { autoMax := s.autoCatchupMaxFrames.toNat, maxBytes := maxBytes.toNat,
           chunkBytes := chunkBytes.toNat, budget := budget.toNat,
           pinFrames := (orElse s.pinFrames retain).toNat }

def resolveRecovery (config : MatchConfig) (retain : Nat) :
    Except MatchFault (RecoveryMode × Option SnapshotSettings) :=
  if config.recovery = .unknown then .error .unknownRecovery
  else
    let mode :=
      if config.recovery = .unset then
        if config.snapshots.provider then RecoveryMode.auto else .catchup
      else config.recovery
    if ¬ config.snapshots.provider then
      if mode ≠ .catchup then .error (.needsProvider mode) else .ok (mode, none)
    else if mode ≠ .catchup ∧ config.reliable.isNone then .error (.needsReliable mode)
    else (resolveSettings config retain).map fun settings => (mode, some settings)

/-- What the host's snapshot source returns. -/
structure Snapshot where
  frame : Nat
  data : Bytes
  stateHash : UInt64 := 0
  hasStateHash : Bool := false
  deriving DecidableEq

structure SnapshotImage where
  snapshot : Snapshot
  digest : SnapshotDigest
  deriving DecidableEq

/-- The snapshot phase of a session: it waits for the shared fetch until there is an
image. `fallback` says that paging is still possible if the fetch fails. -/
structure SnapshotTransfer where
  fallback : Bool
  pin : Nat
  image : Option SnapshotImage := none
  transfer : UInt64 := 0
  offset : Nat := 0
  deriving DecidableEq

/-- What is handed to the reliable sender. A batch of chunks runs from an offset until
the budget is spent. -/
inductive Message where
  | page (frames : List Frame)
  | notice (failure : CatchupUnservableError)
  | chunks (transfer : UInt64) (image : SnapshotImage) (bounds : List (Nat × Nat))
  deriving DecidableEq

/-- A send under way; the cursor moves from `start` to `stop` when it succeeds. -/
structure CatchupSend where
  start : Nat
  stop : Nat
  message : Message
  deriving DecidableEq

structure CatchupState where
  next : Nat
  failures : Nat := 0
  unservable : Option CatchupUnservableError := none
  inflight : Option CatchupSend := none
  snapshot : Option SnapshotTransfer := none
  recovered : Bool := false
  deriving DecidableEq

structure SnapshotRequest where
  minFrame : Nat
  maxFrame : Nat
  deriving DecidableEq

structure Match where
  sequencer : Sequencer
  history : History := {}
  encoder : RedundantEncoder
  depth : Nat
  catchupBatch : Nat
  catchupMax : Nat
  retain : Nat
  reliable : Bool
  closed : Bool := false
  sessions : Table Int Nat := ∅
  spectators : Table Nat Unit := ∅
  sessionOwners : Table Nat Int := ∅
  catchups : Table Nat CatchupState := ∅
  recovery : RecoveryMode
  snapshots : Option SnapshotSettings
  fetch : Option SnapshotRequest := none
  lastTransfer : UInt64 := 0
  committed : Bool

/-- The longest broadcast a configuration can produce. -/
def worstCase (depth players maxInput : Nat) : Nat :=
  (2 + 5) + depth * ((5 + 5) + players * ((5 + 5) + maxInput))

def newMatch (config : MatchConfig) : Except MatchFault Match := do
  let datagrams ← config.datagrams.elim (.error .noDatagrams) .ok
  let sequencer ← (newSequencer config.sequencer).mapError .sequencer
  let depth := normalizeRedundancyDepth config.redundancyDepth
  let maxDatagram ← datagramBudget config.maxDatagramBytes datagrams
  let worst := worstCase depth config.sequencer.players.length sequencer.maxInput.toNat
  if maxDatagram < worst then .error (.worstCase worst maxDatagram)
  let batch := if config.catchupBatchFrames ≤ 0 then 32 else config.catchupBatchFrames.toNat
  if batch = 1 then .error .batchOfOne
  let retain ← historyRetention config.historyRetainFrames
  let maxFailures := if config.catchupMaxFailures ≤ 0 then 8 else config.catchupMaxFailures.toNat
  let (recovery, snapshots) ← resolveRecovery config retain
  return { sequencer, encoder := newRedundantEncoder config.redundancyDepth,
           depth, catchupBatch := min batch maxBroadcastFrames,
           catchupMax := maxFailures, retain, reliable := config.reliable.isSome,
           recovery, snapshots, committed := config.committed }

inductive FetchFailure where
  | unavailable | tooLarge | invalid
  deriving DecidableEq, Repr

/-- How a send ended; a batch of chunks that fails has written some of them. -/
inductive SendResult where
  | ok
  | failed (written : Nat)
  deriving DecidableEq, Repr

/-- What has happened beside the match by a tick: the sends that finished since the last
one, what the snapshot source returned (none: it still runs), the reading of
`CommittedFrame`, and the sends that finish while the tick waits. -/
structure TickInput where
  collected : Nat → Option SendResult
  fetched : Option (Except FetchFailure Snapshot)
  committed : Nat
  finished : Nat → Option SendResult

/-- What the sessions of a match see and ask for. A page or a snapshot is listed when the
match knows that it was sent; `handed` is what goes to the reliable sender, with the last
frame that may be sent in that tick and the oldest one that is kept. -/
inductive Event where
  | request (session first : Nat)
  | page (session : Nat) (frames : List Frame)
  | snapshot (session frame : Nat)
  | ended (session : Nat)
  | broadcast (session : Nat) (packet : List Frame)
  | handed (session : Nat) (message : Message) (head start : Nat)

inductive CatchupError where
  | closed
  | unavailable
  | future (first next : Nat)
  | unservable (failure : CatchupUnservableError)
  | detached
  | notConfigured
  | playerUnknown
  | sessionInUse
  deriving DecidableEq, Repr

/-- The chunks of a batch: from the offset on until the data or the budget is used up. -/
def batchBounds (total chunkBytes budget : Nat) : Nat → Nat → Nat → List (Nat × Nat)
  | 0, _, _ => []
  | fuel + 1, offset, written =>
      if offset < total ∧ written < budget then
        let stop := min (offset + chunkBytes) total
        (offset, stop) :: batchBounds total chunkBytes budget fuel stop (written + (stop - offset))
      else []

def SnapshotImage.chunk (image : SnapshotImage) (transfer : UInt64) (offset stop : Nat) : Bytes :=
  let data := (image.snapshot.data.drop offset).take (stop - offset)
  if offset = 0 then
    appendSnapshotChunk
      { transfer, offset, frame := image.snapshot.frame,
        total := image.snapshot.data.length, stateHash := image.snapshot.stateHash,
        hasStateHash := image.snapshot.hasStateHash, digest := image.digest, data }
  else appendSnapshotChunk { transfer, offset, data }

/-- The bytes of a batch that a result confirms. -/
def writtenBytes (bounds : List (Nat × Nat)) : SendResult → Nat
  | .ok => (bounds.map fun b => b.2 - b.1).sum
  | .failed written => ((bounds.take (min written (bounds.length - 1))).map fun b => b.2 - b.1).sum

namespace Match
variable (m : Match)

def ownerSpectator : Int := -1

def catchupSessions : List Nat :=
  (m.catchups.pairs.map Prod.fst).mergeSort fun a b => decide (a ≤ b)

def setCatchup (session : Nat) (state : CatchupState) : Match :=
  { m with catchups := m.catchups.set session state }

def endCatchup (session : Nat) : Match := { m with catchups := m.catchups.remove session }

def waits (state : CatchupState) : Bool := state.snapshot.any fun t => t.image.isNone

/-- Cancels the fetch when no session waits for it. -/
def releaseIdleFetch : Match :=
  if m.catchups.pairs.any fun entry => waits entry.2 then m else { m with fetch := none }

def dropCatchup (session : Nat) : Match :=
  if (m.catchups.get session).isSome then (m.endCatchup session).releaseIdleFetch else m

def attach (player : Int) (session : Nat) : Match × List Event × Option CatchupError :=
  if m.closed then (m, [], some .closed)
  else if ¬ m.sequencer.players.contains player then (m, [], some .playerUnknown)
  else if (m.sessionOwners.get session).any (· ≠ player) then (m, [], some .sessionInUse)
  else
    let bind (m : Match) : Match :=
      { m with
        sessions := m.sessions.set player session
        sessionOwners := m.sessionOwners.set session player }
    match m.sessions.get player with
    | none => (bind m, [], none)
    | some previous =>
        if previous = session then (m, [], none)
        else
          let dropped := m.dropCatchup previous
          (bind { dropped with sessionOwners := dropped.sessionOwners.remove previous },
            [.ended previous], none)

def detach (player : Int) : Match × List Event :=
  match m.sessions.get player with
  | none => (m, [])
  | some session =>
      let dropped := m.dropCatchup session
      ({ dropped with
         sessionOwners := dropped.sessionOwners.remove session
         sessions := dropped.sessions.remove player }, [.ended session])

def detachSession (player : Int) (session : Nat) : Match × List Event × Bool :=
  if m.sessions.get player ≠ some session then (m, [], false)
  else
    let (next, events) := m.detach player
    (next, events, true)

def attachSpectator (session : Nat) : Match × Option CatchupError :=
  if m.closed then (m, some .closed)
  else if (m.sessionOwners.get session).any (· ≠ ownerSpectator) then (m, some .sessionInUse)
  else
    ({ m with
       spectators := m.spectators.set session ()
       sessionOwners := m.sessionOwners.set session ownerSpectator }, none)

def detachSpectator (session : Nat) : Match × List Event :=
  if (m.spectators.get session).isNone then (m, [])
  else
    (({ m with
        spectators := m.spectators.remove session
        sessionOwners := m.sessionOwners.remove session }).dropCatchup session, [.ended session])

/-- Enters the snapshot phase; a page under way is dropped. -/
def beginSnapshot (state : CatchupState) (fallback : Bool) : CatchupState :=
  { state with
    inflight := none, recovered := false
    snapshot := some { fallback, pin := m.history.start } }

/-- Ends a recovery; the next tick sends the notice. -/
def failRecovery (state : CatchupState) (reason : RecoveryFailureReason) : CatchupState :=
  { state with
    inflight := none, snapshot := none, recovered := false
    unservable := some { reason, first := state.next, start := m.history.start } }

/-- Whether the modes with snapshots page or send a snapshot: the reason to send one, and
whether paging remains possible. -/
def routes (next : Nat) : Option Bool :=
  let autoMax := (m.snapshots.map SnapshotSettings.autoMax).getD 0
  if m.recovery = .snapshot then some false
  else if next < m.history.start then some false
  else if 0 < autoMax ∧ (autoMax : Int) < m.history.latest + 1 - next then some true
  else none

def routeRecovery (session : Nat) (existing : Option CatchupState) (first : Nat) : Match :=
  let routed (state : CatchupState) : Match :=
    match m.routes state.next with
    | none => m.setCatchup session state
    | some fallback => m.setCatchup session (m.beginSnapshot state fallback)
  match existing with
  | none => routed { next := first }
  | some state => if state.next ≤ first then m else routed { state with next := first }

def startCatchup (session : Nat) (asked : Nat) : Match × List Event × Option CatchupError :=
  if m.closed then (m, [], some .closed)
  else if ¬ m.reliable then (m, [], some .unavailable)
  else if m.sequencer.next < asked then (m, [], some (.future asked m.sequencer.next))
  else
    let first := max asked 1
    let existing := m.catchups.get session
    match existing.bind CatchupState.unservable with
    | some failure => (m, [], some (.unservable failure))
    | none =>
        if (existing.bind CatchupState.snapshot).isSome then (m, [.request session first], none)
        else if m.recovery ≠ .catchup then
          (m.routeRecovery session existing first, [.request session first], none)
        else
          let next := match existing with
            | none => m.setCatchup session { next := first }
            | some state =>
                if first < state.next then m.setCatchup session { state with next := first } else m
          let start := m.history.start
          (next, [.request session first],
            if first < start then
              some (.unservable { reason := .historyTrimmed, first, start })
            else none)

def startPlayerCatchup (player : Int) (first : Nat) : Match × List Event × Option CatchupError :=
  match m.sessions.get player with
  | none => (m, [], some .detached)
  | some session => m.startCatchup session first

def spectatorCatchup (session first : Nat) : Match × List Event × Option CatchupError :=
  if (m.spectators.get session).isNone then (m, [], some .detached)
  else m.startCatchup session first

def startSnapshot (session : Nat) : Match × List Event × Option CatchupError :=
  if m.closed then (m, [], some .closed)
  else if m.snapshots.isNone then (m, [], some .notConfigured)
  else if ¬ m.reliable then (m, [], some .unavailable)
  else
    match m.catchups.get session with
    | none =>
        (m.setCatchup session (m.beginSnapshot { next := m.sequencer.next } false),
          [.request session m.sequencer.next], none)
    | some state =>
        match state.unservable with
        | some failure => (m, [], some (.unservable failure))
        | none =>
            if state.snapshot.isSome then (m, [], none)
            else (m.setCatchup session (m.beginSnapshot state false), [], none)

def startPlayerSnapshot (player : Int) : Match × List Event × Option CatchupError :=
  match m.sessions.get player with
  | none => (m, [], some .detached)
  | some session => m.startSnapshot session

def spectatorSnapshot (session : Nat) : Match × List Event × Option CatchupError :=
  if (m.spectators.get session).isNone then (m, [], some .detached)
  else m.startSnapshot session

def submitInput (player : Int) (frame : Nat) (payload : Payload) : Match :=
  if m.closed then m
  else { m with sequencer := (m.sequencer.submitInput player frame payload).1 }

/-- Settles a batch of chunks; after the last one the session pages on from the frame of
the snapshot. -/
def settleChunks (session : Nat) (state : CatchupState) (transfer : SnapshotTransfer)
    (image : SnapshotImage) (written : Nat) (failed : Bool) : Match × List Event × Bool :=
  let offset := transfer.offset + written
  let failures := if 0 < written then 0 else state.failures
  let state := { state with
                 failures, snapshot := some { transfer with offset } }
  if failed then
    if m.catchupMax ≤ failures + 1 then (m.endCatchup session, [.ended session], false)
    else (m.setCatchup session { state with failures := failures + 1 }, [], false)
  else if offset < image.snapshot.data.length then (m.setCatchup session state, [], true)
  else
    let next := image.snapshot.frame + 1
    let events := [Event.snapshot session image.snapshot.frame]
    if m.history.latest < next then (m.endCatchup session, events, true)
    else
      (m.setCatchup session { state with snapshot := none, recovered := true, next },
        events, true)

/-- The cursor after a page was sent; it stays if a request has moved it back since. -/
def paged (state : CatchupState) (send : CatchupSend) : Nat :=
  if send.start ≤ state.next then send.stop else state.next

/-- Settles a page, or a send whose outcome no longer matters to the cursor. -/
def settlePage (session : Nat) (state : CatchupState) (send : CatchupSend) (frames : List Frame)
    (failed : Bool) : Match × List Event × Bool :=
  if failed then
    if m.catchupMax ≤ state.failures + 1 then (m.endCatchup session, [.ended session], false)
    else (m.setCatchup session { state with failures := state.failures + 1 }, [], false)
  else
    let next := paged state send
    let events := [Event.page session frames]
    if m.history.latest < next then (m.endCatchup session, events, true)
    else (m.setCatchup session { state with failures := 0, next }, events, true)

def settleCatchup (session : Nat) (state : CatchupState) (send : CatchupSend)
    (result : SendResult) : Match × List Event × Bool :=
  let failed := decide (result ≠ .ok)
  let state := { state with inflight := none }
  if state.unservable.isSome then (m.endCatchup session, [.ended session], !failed)
  else
    match send.message, state.snapshot with
    | .chunks _ image bounds, some transfer =>
        m.settleChunks session state transfer image (writtenBytes bounds result) failed
    | .page frames, _ => m.settlePage session state send frames failed
    | _, _ => m.settlePage session state send [] failed

/-- A session whose cursor lies in the redundant packet of this tick is caught up. -/
def goLive (session : Nat) : Match :=
  match m.catchups.get session with
  | none => m
  | some state =>
      if state.inflight.isNone ∧ state.snapshot.isNone ∧
          m.history.latest < (state.next + m.depth) % 2 ^ 32 then m.endCatchup session
      else m

def collectOne (input : TickInput) (session : Nat) : Match × List Event :=
  match m.catchups.get session with
  | none => (m, [])
  | some state =>
      match state.inflight with
      | some send =>
          match input.collected session with
          | none => (m, [])
          | some result =>
              let (next, events, settled) := m.settleCatchup session state send result
              (if settled then next.goLive session else next, events)
      | none =>
          if ¬ m.committed ∨ state.unservable.isSome then (m, []) else (m.goLive session, [])

/-- Runs a step for each session in turn. -/
def each (step : Match → Nat → Match × List Event) (m : Match) (sessions : List Nat) :
    Match × List Event :=
  sessions.foldl (fun done session =>
    let (next, events) := step done.1 session
    (next, done.2 ++ events)) (m, [])

def collectCatchups (input : TickInput) : Match × List Event :=
  each (fun m session => m.collectOne input session) m m.catchupSessions

/-- The last frame that may be sent over the reliable lane. -/
def servableHead (committed : Nat) : Nat :=
  if m.committed then min m.history.latest committed else m.history.latest

/-- What the fetch makes of the answer of the snapshot source. -/
def fetchSnapshot (sha256 : Bytes → SnapshotDigest) (request : SnapshotRequest) (maxBytes : Nat)
    (answer : Except FetchFailure Snapshot) : Except FetchFailure SnapshotImage :=
  match answer with
  | .error err => .error err
  | .ok snapshot =>
      if maxBytes < snapshot.data.length then .error .tooLarge
      else if snapshot.data.length = 0 ∨ snapshot.frame < request.minFrame ∨
          request.maxFrame < snapshot.frame then .error .invalid
      else .ok { snapshot, digest := sha256 snapshot.data }

def snapshotAttemptFailed (session : Nat) (state : CatchupState) : Match :=
  let state := { state with failures := state.failures + 1 }
  if m.catchupMax ≤ state.failures then
    m.setCatchup session (m.failRecovery state .snapshotUnavailable)
  else m.setCatchup session state

/-- Gives a waiting session its part of a fetch. -/
def applyOne (result : Except FetchFailure SnapshotImage) (session : Nat) : Match :=
  match m.catchups.get session with
  | none => m
  | some state =>
      match state.snapshot with
      | none => m
      | some transfer =>
          match result with
          | .ok image =>
              if image.snapshot.frame + 1 < m.history.start then
                m.snapshotAttemptFailed session state
              else
                let id := m.lastTransfer + 1
                { m with lastTransfer := id }.setCatchup session
                  { state with
                    failures := 0
                    snapshot := some { transfer with image := some image, transfer := id, offset := 0 } }
          | .error .tooLarge => m.setCatchup session (m.failRecovery state .snapshotTooLarge)
          | .error _ =>
              if transfer.fallback ∧ m.history.start ≤ state.next then
                m.setCatchup session { state with snapshot := none }
              else m.snapshotAttemptFailed session state

def snapshotWaiters : List Nat :=
  m.catchupSessions.filter fun session => (m.catchups.get session).any waits

/-- The fetch under way, if it has finished, goes to the sessions that wait for it. -/
def collectFetch (sha256 : Bytes → SnapshotDigest) (input : TickInput) : Match × Bool :=
  match m.fetch, input.fetched with
  | some request, some answer =>
      let maxBytes := (m.snapshots.map SnapshotSettings.maxBytes).getD 0
      let result := fetchSnapshot sha256 request maxBytes answer
      let done := { m with fetch := none }
      (done.snapshotWaiters.foldl (fun m session => m.applyOne result session) done, true)
  | _, _ => (m, false)

/-- Hands a message to the reliable sender. -/
def launch (session : Nat) (state : CatchupState) (send : CatchupSend) (head : Nat) :
    Match × List Event :=
  (m.setCatchup session { state with inflight := some send },
    [.handed session send.message head m.history.start])

/-- How many frames the next page may have; absent when the frame at the cursor is not
committed yet. -/
def pageLimit (next head : Nat) : Option Nat :=
  if head < m.history.latest then
    if head < next then
      if next ≤ m.history.latest then none else some m.catchupBatch
    else some (min m.catchupBatch (head - next + 1))
  else some m.catchupBatch

def pumpPage (session : Nat) (state : CatchupState) (head : Nat) : Match × List Event :=
  match m.pageLimit state.next head with
  | none => (m, [])
  | some limit =>
      match (m.history.readRange state.next limit).getLast? with
      | none => (m.endCatchup session, [])
      | some last =>
          m.launch session state
            { start := state.next, stop := last.id + 1
              message := .page (m.history.readRange state.next limit) } head

/-- Starts the next send of a session that has none under way. -/
def pumpOne (head : Nat) (session : Nat) : Match × List Event :=
  match m.catchups.get session with
  | none => (m, [])
  | some state =>
      if state.inflight.isSome then (m, [])
      else
        match state.unservable, state.snapshot with
        | some failure, _ =>
            m.launch session state
              { start := state.next, stop := state.next, message := .notice failure } head
        | none, some transfer =>
            match transfer.image, m.snapshots with
            | some image, some settings =>
                let total := image.snapshot.data.length
                let bounds := batchBounds total settings.chunkBytes settings.budget
                  (total - transfer.offset) transfer.offset 0
                m.launch session state
                  { start := 0, stop := 0, message := .chunks transfer.transfer image bounds } head
            | _, _ => (m, [])
        | none, none =>
            if state.next < m.history.start then
              if m.recovery ≠ .catchup then
                (m.setCatchup session (m.beginSnapshot state false), [])
              else
                let failure : CatchupUnservableError :=
                  { reason := .historyTrimmed, first := state.next, start := m.history.start }
                m.launch session { state with unservable := some failure }
                  { start := state.next, stop := state.next, message := .notice failure } head
            else m.pumpPage session state head

/-- Asks for a snapshot when a session waits for one. -/
def launchFetch (head : Nat) : Match :=
  { m with fetch := some { minFrame := m.history.start - 1, maxFrame := head } }

def finishOne (input : TickInput) (session : Nat) : Match × List Event :=
  match m.catchups.get session with
  | none => (m, [])
  | some state =>
      match state.inflight, input.finished session with
      | some send, some result =>
          let (next, events, _) := m.settleCatchup session state send result
          (next, events)
      | _, _ => (m, [])

def pumpCatchup (sha256 : Bytes → SnapshotDigest) (input : TickInput) : Match × List Event :=
  if m.catchups.pairs = [] then (m, [])
  else
    let head := m.servableHead input.committed
    let (fetched, took) := m.collectFetch sha256 input
    let idle := fetched.catchupSessions.filter fun session =>
      (fetched.catchups.get session).any fun state => state.inflight.isNone
    let (pumped, handed) := each (fun m session => m.pumpOne head session) fetched
      fetched.catchupSessions
    let asks := pumped.catchups.pairs.any fun entry => waits entry.2
    let asked :=
      if asks then
        if pumped.fetch.isNone ∧ ¬ took then pumped.launchFetch head else pumped
      else pumped.releaseIdleFetch
    let (done, settled) := each (fun m session => m.finishOne input session) asked idle
    (done, handed ++ settled)

/-- The frame that a session in snapshot recovery needs kept. -/
def recoveryPin (state : CatchupState) : Option Nat :=
  match state.unservable, state.snapshot with
  | some _, _ => none
  | none, some transfer =>
      match transfer.image with
      | none => some transfer.pin
      | some image => some (image.snapshot.frame + 1)
  | none, none => if state.recovered then some state.next else none

/-- The loop of `pinnedTrim`: the match, the trim so far, and whether a recovery expired. -/
structure Pinning where
  game : Match
  trim : Nat
  expired : Bool := false

/-- One session's say in the trim; a pin below the floor ends its recovery. -/
def pinOne (keep floor : Nat) (done : Pinning) (session : Nat) : Pinning :=
  match done.game.catchups.get session with
  | none => done
  | some state =>
      match recoveryPin state with
      | none => done
      | some pin =>
          if keep ≤ pin then done
          else if pin < floor then
            { done with
              game := done.game.setCatchup session (done.game.failRecovery state .expired)
              expired := true }
          else { done with trim := min done.trim pin }

def pinnedTrim (settings : SnapshotSettings) (keep : Nat) : Match × Nat :=
  let pinFrames := settings.pinFrames % 2 ^ 32
  let floor := if pinFrames < keep then keep - pinFrames else 1
  let done := m.catchupSessions.foldl (pinOne keep floor) { game := m, trim := keep }
  (if done.expired then done.game.releaseIdleFetch else done.game, done.trim)

def retainWindow (latest : Nat) : Match :=
  let retain := m.retain % 2 ^ 32
  if m.retain = 0 ∨ latest ≤ retain then m
  else
    let keep := latest - retain + 1
    match m.snapshots with
    | none => { m with history := m.history.trimBefore keep }
    | some settings =>
        if m.catchups.pairs = [] then { m with history := m.history.trimBefore keep }
        else
          let (next, trim) := m.pinnedTrim settings keep
          { next with history := next.history.trimBefore trim }

/-- Seats by player, then spectators by session. -/
def broadcastOrder : List Nat :=
  let players := (m.sessions.pairs.map Prod.fst).mergeSort fun a b => decide (a ≤ b)
  players.filterMap m.sessions.get ++
    (m.spectators.pairs.map Prod.fst).mergeSort fun a b => decide (a ≤ b)

/-- Cuts a frame and sends it. Absent when the match is closed, and where the source
panics. -/
def tick (sha256 : Bytes → SnapshotDigest) (input : TickInput) : Option (Match × List Event) := do
  if m.closed then failure
  let (frame, sequencer) ← m.sequencer.advance
  let history ← m.history.append frame
  let encoder := Ring.push m.encoder frame
  let cut := { m with sequencer, history, encoder }
  let (collected, confirmed) := cut.collectCatchups input
  let live := collected.broadcastOrder.filter fun session =>
    (collected.catchups.get session).isNone
  let (pumped, sent) := collected.pumpCatchup sha256 input
  return (pumped.retainWindow frame.id,
    confirmed ++ live.map (fun session => .broadcast session encoder.values) ++ sent)

def trimHistory (keep : Nat) : Match := { m with history := m.history.trimBefore keep }

def close : Match × List Event :=
  ({ m with
     fetch := none, closed := true, sessions := ∅, spectators := ∅, sessionOwners := ∅
     catchups := ∅ }, m.broadcastOrder.map .ended)

end Match

end Roost.Lockstep
