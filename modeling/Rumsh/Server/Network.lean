import Rumsh.Server.Steps
import Rumsh.Server.TextTerminal

/-! The server's network adapter of `src/server/network.rs`: the handshake wait, and the tasks around a
    session that carry out its actions.

    Each turn of a task is an event of `ServerNode`. A frame job runs on another thread: `diffInFlight`
    holds it from the moment it is spawned until its datagrams are out, and `execute_actions` skips any
    other job meanwhile. -/

namespace Rumsh.Server
open Rumsh.Schemes Rumsh.Protocol

/-! ### Waiting for the client -/

structure HandshakeResult where
  clientAddr : SocketAddr
  sessionId : ℕ
  clientStartSeq : ℕ
  cols : ℕ
  rows : ℕ
  deriving DecidableEq, Repr

/-- The datagram is a handshake: its number and the client's terminal size. -/
def readHandshake (cr : Crates) (cryptoHandshake : CryptoManager) (buf : Bytes) :
    Option (ℕ × ℕ × ℕ) :=
  match deserialize cr.clientPacket buf with
  | .error _ => none
  | .ok wirePacket =>
    if wirePacket.sessionId = 0 then
      match cryptoHandshake.decrypt cr wirePacket.seqNum wirePacket.ciphertext with
      | .error _ => none
      | .ok payloadBytes =>
        match deserialize cr.clientPayload payloadBytes with
        | .ok (.handshake _ cols rows) => some (wirePacket.seqNum, cols, rows)
        | _ => none
    else none

/-- The reply is numbered 1. -/
def replySeq : ℕ := 1

/-- The reply, under the handshake crypto and without the compression flag. The two `unwrap`s panic. -/
def handshakeReply (cr : Crates) (cryptoHandshake : CryptoManager) (sessionId clientSeq : ℕ) :
    Option (List Bytes) :=
  match serialize cr.serverPayload (.handshakeAck sessionId) with
  | .error _ => none
  | .ok ackBytes =>
    match cryptoHandshake.encrypt cr replySeq ackBytes with
    | .error _ => none
    | .ok ciphertext =>
      match serialize cr.serverPacket ⟨replySeq, clientSeq, 0, 1, ciphertext⟩ with
      | .ok serialized => some [serialized]
      | .error _ => some []

/-- One turn of `wait_for_client_handshake`: `some none` keeps waiting, `some (some _)` ends the wait
    with its result and the datagrams sent. -/
def waitForClientHandshake (cr : Crates) (cryptoHandshake : CryptoManager) (sessionId : ℕ)
    (buf : Bytes) (src : SocketAddr) : Option (Option (HandshakeResult × List Bytes)) :=
  match readHandshake cr cryptoHandshake buf with
  | none => some none
  | some (seqNum, cols, rows) =>
    (handshakeReply cr cryptoHandshake sessionId seqNum).map fun reply =>
      some ({ clientAddr := src, sessionId, clientStartSeq := seqNum, cols, rows }, reply)

/-! ### Carrying out actions -/

structure ServerNode (C T : Type) where
  session : AuthoritativeSession C T
  -- the job whose task is running, and where its datagrams go
  diffInFlight : Option (UpdateJob C × SocketAddr)
  fragmentCache : List (ℕ × List Bytes)
  sent : List (Bytes × SocketAddr)
  -- ghost: the jobs that have been run and sent
  ran : List (UpdateJob C)
  shutdownRequested : Bool

namespace ServerNode
variable {C T : Type}

def start (session : AuthoritativeSession C T) : ServerNode C T :=
  { session, diffInFlight := none, fragmentCache := [], sent := [], ran := [],
    shutdownRequested := false }

/-- Bit `idx % 64` of word `idx / 64` says that the client has the fragment. -/
def isReceived (receivedMask : List ℕ) (idx : ℕ) : Bool :=
  match receivedMask[idx / 64]? with
  | some word => word.testBit (idx % 64)
  | none => false

/-- The cached datagrams of a frame that the mask does not show as received. -/
def missingFragments (cache : List (ℕ × List Bytes)) (frameSeq : ℕ) (receivedMask : List ℕ) :
    List Bytes :=
  match cache.find? fun entry => entry.1 == frameSeq with
  | some (_, packets) =>
    (packets.zipIdx.filter fun (_, idx) => !isReceived receivedMask idx).map Prod.fst
  | none => []

/-- One action of `execute_actions`. -/
def executeAction (n : ServerNode C T) : SessionAction C → ServerNode C T
  | .sendPacket bytes target => { n with sent := n.sent ++ [(bytes, target)] }
  | .offloadDiffJob job target =>
    -- "If another diff job is already in flight, skip this one to prevent concurrent bursting"
    if n.diffInFlight.isSome then n else { n with diffInFlight := some (job, target) }
  | .resendFragments frameSeq receivedMask target =>
    { n with sent := n.sent ++
      (missingFragments n.fragmentCache frameSeq receivedMask).map fun bytes => (bytes, target) }
  | .shutdown => { n with shutdownRequested := true }

def executeActions (n : ServerNode C T) (actions : List (SessionAction C)) : ServerNode C T :=
  actions.foldl executeAction n

/-- A frame of several datagrams is kept for retransmission, among the last four. -/
def cacheFragments (cache : List (ℕ × List Bytes)) (seq : ℕ) (packets : List Bytes) :
    List (ℕ × List Bytes) :=
  if packets.length > 1 then
    (if cache.length ≥ 4 then cache.tail else cache) ++ [(seq, packets)]
  else cache

variable [PacketCodec C] [TerminalState T]

/-- The end of the job's task. A panic in the job leaves the flag set. -/
def finishJob (n : ServerNode C T) : ServerNode C T :=
  match n.diffInFlight with
  | none => n
  | some (job, target) =>
    match job.run with
    | none => n
    | some (.error _) => { n with diffInFlight := none }
    | some (.ok packets) =>
      { n with diffInFlight := none, fragmentCache := cacheFragments n.fragmentCache job.seq packets,
               sent := n.sent ++ packets.map fun bytes => (bytes, target), ran := n.ran ++ [job] }

inductive Event where
  | ptyBytes (data : Bytes) (now : Instant)
  | tick (now : Instant) (echo : Bool)
  | recv (bytes : Bytes) (src : SocketAddr) (now : Instant) (echo : Bool)
  | jobDone

/-- A turn of the PTY reader, of the 16 ms ticker, of the receiver loop, or the end of a job. -/
def step (n : ServerNode C T) : Event → Option (ServerNode C T)
  | .ptyBytes data now => some { n with session := n.session.onPtyBytes data now }
  | .tick now echo =>
    -- "Skip generating a new frame if a previous diff job is still in flight"
    if n.diffInFlight.isSome then some n
    else
      let (session, actions) := n.session.onTick now echo
      some ({ n with session }.executeActions actions)
  | .recv bytes src now echo =>
    match n.session.feedPacket bytes src now echo with
    | none => none
    | some (session, .ok actions) => some ({ n with session }.executeActions actions)
    | some (session, .error _) => some { n with session }
  | .jobDone => some n.finishJob

end ServerNode

end Rumsh.Server
