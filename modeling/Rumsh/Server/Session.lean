import Rumsh.Schemes.Window
import Rumsh.Protocol.Codec

/-! The server's session of `src/server/session.rs`: the receive window, the handshake reset, and the
    frame scheduler.

    `AuthoritativeSession` keeps every field of the source. The terminal emulator is a type `T` with
    the four operations the session calls; what the session does to the PTY is the list `pty` of calls.
    A method that can fail after it has changed the session returns the session next to its `Result`; a
    reached `unreachable!` is `none`. The clock and the answer of `is_echo_recommended` are arguments. -/

namespace Rumsh.Server
open Std Rumsh.Schemes Rumsh.Protocol

/-- `ServerTerminalState`. Writing and resizing return what the emulator answers through its PTY
    callback. -/
class TerminalState (T : Type) where
  new : (cols rows : ℕ) → Except Error T
  write : T → Bytes → T × List Bytes
  resize : T → (cols rows : ℕ) → T × List Bytes
  updateAndGetState : T → T × Except Error GridState

/-- A call on the PTY backend. `reply` is a write made by the emulator's callback. -/
inductive PtyCall where
  | write (data : Bytes)
  | resize (cols rows : ℕ)
  | reply (data : Bytes)
  deriving DecidableEq, Repr

/-- A frame to be diffed, compressed and sealed off the session's thread. -/
structure UpdateJob (C : Type) where
  seq : ℕ
  ackSeq : ℕ
  refSeq : ℕ
  refState : Option GridState
  currentState : GridState
  codec : C
  isEchoRecommended : Bool

inductive SessionAction (C : Type) where
  | sendPacket (bytes : Bytes) (target : SocketAddr)
  | offloadDiffJob (job : UpdateJob C) (target : SocketAddr)
  | resendFragments (frameSeq : ℕ) (receivedMask : List ℕ) (target : SocketAddr)
  | shutdown

/-- `UpdateJob::run`: the datagrams of the frame. -/
def UpdateJob.run {C : Type} [PacketCodec C] (job : UpdateJob C) : Option (Except Error (List Bytes)) :=
  (job.currentState.diffFrom job.refState job.refSeq job.isEchoRecommended).map fun update =>
    PacketCodec.sealServer job.codec job.seq job.ackSeq (.frame update)

structure AuthoritativeSession (C T : Type) where
  sessionId : ℕ
  seqNum : ℕ
  ackSeqNum : ℕ
  expectedClientSeq : ℕ
  outOfOrderPackets : TreeMap ℕ ClientPayload
  clientAckSeq : ℕ
  lastSentAckSeq : ℕ
  stateHistory : List (ℕ × GridState)
  codec : C
  currentClientAddr : SocketAddr
  lastRecvTime : Instant
  lastSyncTime : Instant
  lastPtyBytesTime : Instant
  ptyBytesAcc : ℕ
  dirty : Bool
  termState : T
  pty : List PtyCall
  -- ghost: the number, ack and payload of every `seal_server` call of the session itself
  sealedCalls : List (ℕ × ℕ × ServerPayload)
  -- ghost: every entry ever pushed to `state_history`
  pushed : List (ℕ × GridState)

namespace AuthoritativeSession
variable {C T : Type} [PacketCodec C] [TerminalState T]

def new (sessionId : ℕ) (codec : C) (clientStartSeq : ℕ) (initialClientAddr : SocketAddr)
    (cols rows : ℕ) (now : Instant) : Except Error (AuthoritativeSession C T) := do
  let termState ← TerminalState.new cols rows
  return { sessionId, seqNum := 0, ackSeqNum := clientStartSeq,
           expectedClientSeq := clientStartSeq + 1, outOfOrderPackets := ∅, clientAckSeq := 0,
           lastSentAckSeq := 0, stateHistory := [], codec, currentClientAddr := initialClientAddr,
           lastRecvTime := now, lastSyncTime := now, lastPtyBytesTime := now, ptyBytesAcc := 0,
           dirty := false, termState, pty := [], sealedCalls := [], pushed := [] }

/-! ### Frame scheduling -/

/-- A flood of PTY output stretches the pause between frames from 16 to 150 ms. -/
def minInterval (s : AuthoritativeSession C T) (now : Instant) : ℕ :=
  if s.ptyBytesAcc > 2048 ∧ now - s.lastPtyBytesTime < millis 50 then millis 150 else millis 16

def throttled (s : AuthoritativeSession C T) (now : Instant) : Bool :=
  s.seqNum > 0 && now - s.lastSyncTime < s.minInterval now

/-- 50 ms without PTY output end a flood. -/
def calmed (s : AuthoritativeSession C T) (now : Instant) : AuthoritativeSession C T :=
  if now - s.lastPtyBytesTime ≥ millis 50 then { s with ptyBytesAcc := 0 } else s

/-- While more than 100 states are kept, those before the client's ack are dropped. -/
def pruneHistory (clientAckSeq : ℕ) : List (ℕ × GridState) → List (ℕ × GridState)
  | [] => []
  | entry :: rest =>
    if entry.1 < clientAckSeq ∧ (entry :: rest).length > 100 then pruneHistory clientAckSeq rest
    else entry :: rest

/-- At most 200 states are kept. -/
def capHistory (history : List (ℕ × GridState)) : List (ℕ × GridState) :=
  if history.length > 200 then history.tail else history

/-- The state the client acknowledged last, unless it lags more than 5 packets behind or the state
    is gone: then the frame is sent in full. -/
def refStateOpt (history : List (ℕ × GridState)) (seqNum clientAckSeq : ℕ) : Option GridState :=
  if seqNum - clientAckSeq > 5 then none
  else (history.find? fun entry => entry.1 == clientAckSeq).map Prod.snd

/-- The rest of `check_sync` once a frame is due: number it, choose its reference, record it and
    hand it out. -/
def queueFrame (s : AuthoritativeSession C T) (latestGrid : GridState) (now : Instant) (echo : Bool) :
    AuthoritativeSession C T × List (SessionAction C) :=
  let history := pruneHistory s.clientAckSeq s.stateHistory
  let refState := refStateOpt history s.seqNum s.clientAckSeq
  let seq := s.seqNum + 1
  ({ s with lastSentAckSeq := s.ackSeqNum, dirty := false, lastSyncTime := now, seqNum := seq,
            stateHistory := capHistory (history ++ [(seq, latestGrid)]),
            pushed := s.pushed ++ [(seq, latestGrid)] },
    [.offloadDiffJob
      { seq, ackSeq := s.ackSeqNum, refSeq := if refState.isSome then s.clientAckSeq else 0, refState,
        currentState := latestGrid, codec := s.codec, isEchoRecommended := echo }
      s.currentClientAddr])

def isIdentical (history : List (ℕ × GridState)) (latestGrid : GridState) : Bool :=
  match history.getLast? with
  | some (_, lastState) => lastState == latestGrid
  | none => false

/-- The part of `check_sync` after the two early returns: compile the grid, and skip it when nothing
    in it or in the acks is new. -/
def syncGrid (s : AuthoritativeSession C T) (now : Instant) (echo : Bool) :
    AuthoritativeSession C T × List (SessionAction C) :=
  match TerminalState.updateAndGetState s.termState with
  | (termState, .error _) => ({ s with termState }, [])
  | (termState, .ok latestGrid) =>
    if isIdentical s.stateHistory latestGrid && !decide (s.ackSeqNum > s.lastSentAckSeq) then
      ({ s with termState, dirty := false }, [])
    else queueFrame { s with termState } latestGrid now echo

/-- Nothing to send: the screen is clean and every client packet is acknowledged. -/
def upToDate (s : AuthoritativeSession C T) : Bool :=
  !s.dirty && s.ackSeqNum ≤ s.lastSentAckSeq

def checkSync (s : AuthoritativeSession C T) (now : Instant) (echo : Bool) :
    AuthoritativeSession C T × List (SessionAction C) :=
  if s.throttled now then (s, [])
  else if (s.calmed now).upToDate then (s.calmed now, [])
  else (s.calmed now).syncGrid now echo

def onTick (s : AuthoritativeSession C T) (now : Instant) (echo : Bool) :
    AuthoritativeSession C T × List (SessionAction C) := s.checkSync now echo

/-- `pty_bytes_acc` saturates at `usize::MAX`. -/
def onPtyBytes (s : AuthoritativeSession C T) (data : Bytes) (now : Instant) :
    AuthoritativeSession C T :=
  let (termState, replies) := TerminalState.write s.termState data
  { s with termState, dirty := true, lastPtyBytesTime := now,
           ptyBytesAcc := min (s.ptyBytesAcc + data.length) (2 ^ 64 - 1),
           pty := s.pty ++ replies.map .reply }

/-! ### Packets -/

/-- The high bit, or a kind that never takes part in the ordering. -/
def isTransient (seqNum : ℕ) (payload : ClientPayload) : Bool :=
  seqNum.testBit 63 || match payload with
    | .ack => true
    | .fragmentNack _ _ => true
    | _ => false

/-- A packet of the session was received: note the time and follow a roaming client. -/
def heard (s : AuthoritativeSession C T) (src : SocketAddr) (now : Instant) :
    AuthoritativeSession C T :=
  { s with lastRecvTime := now, currentClientAddr := src }

def sendAll (datagrams : List Bytes) (target : SocketAddr) : List (SessionAction C) :=
  datagrams.map fun bytes => .sendPacket bytes target

/-- `self.seq_num += 1`, then `seal_server` under that number. -/
def sealNext (s : AuthoritativeSession C T) (ack : ℕ) (payload : ServerPayload) :
    AuthoritativeSession C T × Except Error (List Bytes) :=
  let seq := s.seqNum + 1
  ({ s with seqNum := seq, sealedCalls := s.sealedCalls ++ [(seq, ack, payload)] },
    PacketCodec.sealServer s.codec seq ack payload)

/-- A handshake is ignored while the session is alive: it has sent something and heard something
    within 5 s. -/
def ignoresHandshake (s : AuthoritativeSession C T) (now : Instant) : Bool :=
  s.seqNum > 0 && now - s.lastRecvTime < secs 5

/-- `// Reset sequence tracking for reconnected client`. -/
def resetFor (s : AuthoritativeSession C T) (seqNum : ℕ) (src : SocketAddr) (now : Instant) :
    AuthoritativeSession C T :=
  { s with currentClientAddr := src, lastRecvTime := now, ackSeqNum := seqNum,
           expectedClientSeq := seqNum + 1, clientAckSeq := 0, outOfOrderPackets := ∅,
           stateHistory := [], dirty := true }

/-- The `session_id == 0` branch. -/
def feedHandshake (s : AuthoritativeSession C T) (seqNum : ℕ) (src : SocketAddr) (now : Instant)
    (echo : Bool) : AuthoritativeSession C T × Except Error (List (SessionAction C)) :=
  if s.ignoresHandshake now then (s, .ok [])
  else
    match (s.resetFor seqNum src now).sealNext seqNum (.handshakeAck s.sessionId) with
    | (s, .error e) => (s, .error e)
    | (s, .ok datagrams) =>
      let sync := s.checkSync now echo
      (sync.1, .ok (sendAll datagrams s.currentClientAddr ++ sync.2))

/-- A transient packet's ack counts only if it is newer. -/
def noteAck (s : AuthoritativeSession C T) (ackSeqNum : ℕ) : AuthoritativeSession C T :=
  { s with clientAckSeq := max s.clientAckSeq ackSeqNum }

/-- A NACK asks for fragments. -/
def resendOf (payload : ClientPayload) (target : SocketAddr) : List (SessionAction C) :=
  match payload with
  | .fragmentNack frameSeq mask => [.resendFragments frameSeq mask target]
  | _ => []

/-- The transient branch. -/
def feedTransient (s : AuthoritativeSession C T) (ackSeqNum : ℕ) (payload : ClientPayload)
    (now : Instant) (echo : Bool) : AuthoritativeSession C T × Except Error (List (SessionAction C)) :=
  let sync := (s.noteAck ackSeqNum).checkSync now echo
  (sync.1, .ok (resendOf payload s.currentClientAddr ++ sync.2))

/-- A packet that came early waits. -/
def buffer (s : AuthoritativeSession C T) (seqNum : ℕ) (payload : ClientPayload) :
    AuthoritativeSession C T :=
  { s with outOfOrderPackets := s.outOfOrderPackets.insert seqNum payload }

/-- One turn of the processing loop. -/
def process (s : AuthoritativeSession C T) (payload : ClientPayload) :
    Option (AuthoritativeSession C T × Except Error (List (SessionAction C))) :=
  match payload with
  | .ack => some (s, .ok [])
  | .keystrokes keys => some ({ s with pty := s.pty ++ [.write keys] }, .ok [])
  | .resize cols rows =>
    let (termState, replies) := TerminalState.resize s.termState cols rows
    some ({ s with pty := s.pty ++ .resize cols rows :: replies.map .reply, termState, dirty := true },
      .ok [])
  | .keepAlive =>
    match s.sealNext s.ackSeqNum .keepAlive with
    | (s, .error e) => some (s, .error e)
    | (s, .ok datagrams) => some (s, .ok (sendAll datagrams s.currentClientAddr))
  | .fragmentNack frameSeq mask =>
    some (s, .ok [.resendFragments frameSeq mask s.currentClientAddr])
  | .handshake _ _ _ => none

/-- `for (seq, payload) in packets_to_process`: the first error ends it and drops the actions. -/
def processAll : List (ℕ × ClientPayload) → AuthoritativeSession C T → List (SessionAction C) →
    Option (AuthoritativeSession C T × Except Error (List (SessionAction C)))
  | [], s, actions => some (s, .ok actions)
  | (_, payload) :: rest, s, actions =>
    match s.process payload with
    | none => none
    | some (s', .error e) => some (s', .error e)
    | some (s', .ok more) => processAll rest s' (actions ++ more)

/-- The packet that was expected and the run of buffered ones behind it. -/
def packetsToProcess (s : AuthoritativeSession C T) (payload : ClientPayload) :
    List (ℕ × ClientPayload) :=
  (s.expectedClientSeq, payload) ::
    (drain s.outOfOrderPackets.size s.outOfOrderPackets (s.expectedClientSeq + 1)).1

/-- The window after that run was taken out of it. -/
def advance (s : AuthoritativeSession C T) (ackSeqNum : ℕ) : AuthoritativeSession C T :=
  let (_, held, expected) :=
    drain s.outOfOrderPackets.size s.outOfOrderPackets (s.expectedClientSeq + 1)
  { s with expectedClientSeq := expected, outOfOrderPackets := held, ackSeqNum := expected - 1,
           clientAckSeq := ackSeqNum }

/-- The in-order branch. -/
def feedInOrder (s : AuthoritativeSession C T) (ackSeqNum : ℕ) (payload : ClientPayload)
    (now : Instant) (echo : Bool) :
    Option (AuthoritativeSession C T × Except Error (List (SessionAction C))) :=
  match processAll (s.packetsToProcess payload) (s.advance ackSeqNum) [] with
  | none => none
  | some (s', .error e) => some (s', .error e)
  | some (s', .ok actions) =>
    let sync := s'.checkSync now echo
    some (sync.1, .ok (actions ++ sync.2))

/-- A packet of this session, after it was noted as heard. -/
def feedHeard (s : AuthoritativeSession C T) (wirePacket : EncryptedClientPacket)
    (payload : ClientPayload) (now : Instant) (echo : Bool) :
    Option (AuthoritativeSession C T × Except Error (List (SessionAction C))) :=
  if isTransient wirePacket.seqNum payload then
    some (s.feedTransient wirePacket.ackSeqNum payload now echo)
  else if wirePacket.seqNum < s.expectedClientSeq then some (s, .ok [])
  else if wirePacket.seqNum > s.expectedClientSeq then
    some (s.buffer wirePacket.seqNum payload, .ok [])
  else s.feedInOrder wirePacket.ackSeqNum payload now echo

def feedPacket (s : AuthoritativeSession C T) (packetBytes : Bytes) (src : SocketAddr)
    (now : Instant) (echo : Bool) :
    Option (AuthoritativeSession C T × Except Error (List (SessionAction C))) :=
  match PacketCodec.openClient s.codec packetBytes with
  | .error _ => some (s, .ok [])
  | .ok (wirePacket, payload, _) =>
    if wirePacket.sessionId = 0 then some (s.feedHandshake wirePacket.seqNum src now echo)
    else if wirePacket.sessionId ≠ s.sessionId then some (s, .ok [])
    else (s.heard src now).feedHeard wirePacket payload now echo

/-- The last datagram of the sealed `Shutdown`, or an empty one. -/
def prepareShutdown (s : AuthoritativeSession C T) :
    AuthoritativeSession C T × Except Error (SessionAction C) :=
  let (s, sealed) := s.sealNext 0 .shutdown
  (s, sealed.map fun datagrams => .sendPacket (datagrams.getLast?.getD []) s.currentClientAddr)

end AuthoritativeSession

end Rumsh.Server
