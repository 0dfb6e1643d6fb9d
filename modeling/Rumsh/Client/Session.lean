import Rumsh.Protocol.Codec
import Rumsh.Client.Escape
import Rumsh.Client.Terminal

/-! The client's session of `src/client/session.rs`: reliable sending, the mirror of the server's
    frames, and the timers.

    `MirrorSession` keeps every field of the source. A method that can fail after it has changed the
    session returns the session next to its `Result`; `none` is an index panic in the mirror. `HashMap`s
    are `TreeMap`s: the one iteration that sends something, the retransmission, may send in any order. -/

namespace Rumsh.Client
open Std Rumsh.Protocol

inductive ClientAction where
  | sendPacket (bytes : Bytes)
  | paint
  | suspend
  | showHelp
  | disconnect
  deriving DecidableEq, Repr

structure MirrorSession (C : Type) where
  sessionId : ℕ
  seqNum : ℕ
  ackSeqNum : ℕ
  codec : C
  lastRecvTime : Instant
  isEchoEnabled : Bool
  sentPackets : TreeMap ℕ Instant
  unackedPackets : TreeMap ℕ (Bytes × Instant)
  lastArqCheck : Instant
  lastKeepaliveSent : Instant
  keepaliveInterval : ℕ
  lastAckSent : Instant
  isReconnecting : Bool
  transientSeqNum : ℕ
  lastNackCheck : Instant
  nackedFrames : TreeMap ℕ Instant
  expectedServerSeq : ℕ
  lossWindow : List Bool
  stateHistory : List (ℕ × GridState)
  lastTelemetryCalc : Instant
  bytesRecvAcc : ℕ
  compAcc : ℕ
  decompAcc : ℕ
  paintCountAcc : ℕ
  mirror : ClientTerminal
  interpreter : EscapeInterpreter
  -- ghost: the number, ack and payload of every `seal_client` call
  sealedCalls : List (ℕ × ℕ × ClientPayload)
  -- ghost: every packet ever put into `unacked_packets`
  issued : List (ℕ × ClientPayload)
  -- ghost: every entry ever pushed to `state_history`
  applied : List (ℕ × GridState)

namespace MirrorSession
variable {C : Type} [PacketCodec C]

def new (sessionId : ℕ) (codec : C) (startServerSeq cols rows : ℕ) (overlay : Bool) (now : Instant) :
    MirrorSession C :=
  { sessionId, seqNum := 0, ackSeqNum := 0, codec, lastRecvTime := now, isEchoEnabled := true,
    sentPackets := ∅, unackedPackets := ∅, lastArqCheck := now, lastKeepaliveSent := now,
    keepaliveInterval := secs 2, lastAckSent := now, isReconnecting := false, transientSeqNum := 0,
    lastNackCheck := now, nackedFrames := ∅, expectedServerSeq := startServerSeq, lossWindow := [],
    stateHistory := [], lastTelemetryCalc := now, bytesRecvAcc := 0, compAcc := 0, decompAcc := 0,
    paintCountAcc := 0, mirror := (ClientTerminal.new cols rows).setOverlayEnabled overlay,
    interpreter := EscapeInterpreter.new, sealedCalls := [], issued := [],
    applied := [] }

/-! ### Sealing -/

/-- `seal_client` under the session's id and its current ack. -/
def sealNow (s : MirrorSession C) (seq : ℕ) (payload : ClientPayload) :
    MirrorSession C × Except Error Bytes :=
  ({ s with sealedCalls := s.sealedCalls ++ [(seq, s.ackSeqNum, payload)] },
    PacketCodec.sealClient s.codec s.sessionId seq s.ackSeqNum payload)

/-- A packet under the next reliable number; once sealed it is kept until it is acknowledged. -/
def prepareReliable (s : MirrorSession C) (payload : ClientPayload) (now : Instant) :
    MirrorSession C × Except Error (Bytes × ℕ) :=
  let seq := s.seqNum + 1
  match ({ s with seqNum := seq, sentPackets := s.sentPackets.insert seq now }).sealNow seq payload with
  | (s, .error e) => (s, .error e)
  | (s, .ok bytes) =>
    ({ s with unackedPackets := s.unackedPackets.insert seq (bytes, now),
              issued := s.issued ++ [(seq, payload)] }, .ok (bytes, seq))

/-- A packet under the next number of the high half, sent once. -/
def prepareTransient (s : MirrorSession C) (payload : ClientPayload) :
    MirrorSession C × Except Error Bytes :=
  let n := s.transientSeqNum + 1
  ({ s with transientSeqNum := n }).sealNow (1 <<< 63 ||| n) payload

def prepareKeystrokes (s : MirrorSession C) (keys : Bytes) (now : Instant) :
    MirrorSession C × Except Error (Bytes × ℕ) := s.prepareReliable (.keystrokes keys) now

def prepareKeepalive (s : MirrorSession C) (now : Instant) :
    MirrorSession C × Except Error (Bytes × ℕ) :=
  { s with lastKeepaliveSent := now }.prepareReliable .keepAlive now

def prepareResize (s : MirrorSession C) (cols rows : ℕ) (now : Instant) :
    MirrorSession C × Except Error (Bytes × ℕ) := s.prepareReliable (.resize cols rows) now

def prepareAck (s : MirrorSession C) (now : Instant) : MirrorSession C × Except Error Bytes :=
  { s with lastAckSent := now }.prepareTransient .ack

def prepareFragmentNack (s : MirrorSession C) (frameSeq : ℕ) (receivedMask : List ℕ) :
    MirrorSession C × Except Error Bytes := s.prepareTransient (.fragmentNack frameSeq receivedMask)

/-- `if let Ok(ack_bytes) = self.prepare_ack(now)`. -/
def sendAck (s : MirrorSession C) (now : Instant) : MirrorSession C × List ClientAction :=
  match s.prepareAck now with
  | (s, .ok bytes) => (s, [.sendPacket bytes])
  | (s, .error _) => (s, [])

/-! ### Packets -/

/-- Silence of more than 5 s was an outage. -/
def isRecovering (s : MirrorSession C) (now : Instant) : Bool := now - s.lastRecvTime > secs 5

def countStats (s : MirrorSession C) (stats : CodecStats) : MirrorSession C :=
  { s with bytesRecvAcc := s.bytesRecvAcc + stats.wireLen, compAcc := s.compAcc + stats.compLen,
           decompAcc := s.decompAcc + stats.decompLen }

/-- An outage resets the loss telemetry. -/
def noteRecovery (s : MirrorSession C) (seq : ℕ) (now : Instant) : MirrorSession C :=
  if s.isRecovering now then { s with lossWindow := [], expectedServerSeq := seq } else s

/-- The round trip the ack closes, in ms: `as_millis() as u32`, discarded from 5 s on. -/
def rttUpdated (s : MirrorSession C) (ack : ℕ) (now : Instant) : Option ℕ :=
  match s.sentPackets[ack]? with
  | none => none
  | some sentTime =>
    let rtt := (now - sentTime) / 10 ^ 6 % 2 ^ 32
    if !s.isRecovering now && rtt < 5000 then some rtt else none

/-- The server's ack is cumulative. -/
def pruneAcked (s : MirrorSession C) (ack : ℕ) : MirrorSession C :=
  { s with sentPackets := (s.sentPackets.erase ack).filter fun n _ => ack < n,
           unackedPackets := s.unackedPackets.filter fun n _ => ack < n }

/-- `loss_window[len - 1 - gap] = true` for a late packet that is still in the window. -/
def correctLate (lossWindow : List Bool) (gap : ℕ) : List Bool :=
  if gap < lossWindow.length then lossWindow.set (lossWindow.length - 1 - gap) true else lossWindow

/-- The window of the last 100 numbers and whether each arrived. -/
def noteArrival (s : MirrorSession C) (seq : ℕ) : MirrorSession C :=
  let (window, expected) :=
    if s.expectedServerSeq = 0 then (s.lossWindow, seq + 1)
    else if seq > s.expectedServerSeq then
      (s.lossWindow ++ List.replicate (seq - s.expectedServerSeq) false ++ [true], seq + 1)
    else if seq = s.expectedServerSeq then (s.lossWindow ++ [true], seq + 1)
    else (correctLate s.lossWindow (s.expectedServerSeq - 1 - seq), s.expectedServerSeq)
  { s with lossWindow := window.drop (window.length - 100), expectedServerSeq := expected }

def lossPct (lossWindow : List Bool) : Option Float32 :=
  if lossWindow.isEmpty then none
  else some ((lossWindow.count false).toFloat32 / lossWindow.length.toFloat32 * 100.0)

/-- All that happens before the duplicate test: statistics, ARQ pruning, loss window, and the mirror's
    acknowledgement. -/
def noteHeaders (s : MirrorSession C) (seq ack : ℕ) (stats : CodecStats) (now : Instant) :
    Option (MirrorSession C) :=
  let s₁ := (s.countStats stats).noteRecovery seq now
  let s₂ := (s₁.pruneAcked ack).noteArrival seq
  (s₂.mirror.acknowledge ack).map fun mirror =>
    { s₂ with mirror := mirror.recordRttLoss (s₁.rttUpdated ack now) (lossPct s₂.lossWindow) }

/-- A new packet: its number is the high-water mark, and the connection is alive again. -/
def accept (s : MirrorSession C) (seq : ℕ) (now : Instant) : Option (MirrorSession C) :=
  let s := { s with lastRecvTime := now, ackSeqNum := seq, keepaliveInterval := secs 2 }
  if s.isReconnecting then
    (s.mirror.setReconnecting false).map fun mirror => { s with isReconnecting := false, mirror }
  else some s

/-- The grid a frame is a patch of: a blank one for a full frame, else the reference, if it is held. -/
def baseFor (s : MirrorSession C) (update : FrameUpdate) : Option GridState :=
  if update.refSeq = 0 then some (GridState.blank update.cols update.rows)
  else (s.stateHistory.find? fun entry => entry.1 == update.refSeq).map Prod.snd

/-- At most 200 states are kept. -/
def capHistory (history : List (ℕ × GridState)) : List (ℕ × GridState) :=
  if history.length > 200 then history.tail else history

/-- The patched grid goes to the mirror and into the history. -/
def showFrame (s : MirrorSession C) (seq : ℕ) (newState : GridState) (echo : Bool) :
    Option (MirrorSession C) :=
  (s.mirror.applyFrame newState seq).bind fun mirror =>
    (if echo then some mirror else mirror.abortPrediction).map fun mirror =>
      { s with isEchoEnabled := echo, mirror,
               stateHistory := capHistory (s.stateHistory ++ [(seq, newState)]),
               applied := s.applied ++ [(seq, newState)] }

/-- Frames are acknowledged at most every 30 ms. -/
def ackIfDue (s : MirrorSession C) (now : Instant) : MirrorSession C × List ClientAction :=
  if now - s.lastAckSent ≥ millis 30 then s.sendAck now else (s, [])

def feedFrame (s : MirrorSession C) (seq : ℕ) (update : FrameUpdate) (now : Instant) :
    Option (MirrorSession C × Except Error (List ClientAction)) :=
  match s.baseFor update with
  | none =>
    -- [FRAME_DROP_MISSING_REF]
    let acked := s.sendAck now
    some (acked.1, .ok acked.2)
  | some base =>
    match base.patch update with
    | none => none
    | some (_, .error e) => some (s, .error e)
    | some (newState, .ok ()) =>
      (s.showFrame seq newState update.isEchoEnabled).map fun s =>
        let acked := s.ackIfDue now
        (acked.1, .ok (.paint :: acked.2))

def feedPayload (s : MirrorSession C) (seq : ℕ) (payload : ServerPayload) (now : Instant) :
    Option (MirrorSession C × Except Error (List ClientAction)) :=
  match payload with
  | .frame update => s.feedFrame seq update now
  | .keepAlive => some (s, .ok [])
  | .shutdown => some (s, .ok [.disconnect])
  | .handshakeAck _ => some (s, .ok [])

/-- What follows a datagram that opened. -/
def feedOpened (s : MirrorSession C) (packet : EncryptedServerPacket) (payload : ServerPayload)
    (stats : CodecStats) (now : Instant) :
    Option (MirrorSession C × Except Error (List ClientAction)) :=
  (s.noteHeaders packet.seqNum packet.ackSeqNum stats now).bind fun s =>
    -- [FRAME_DROP_DUPLICATE]
    if packet.seqNum ≤ s.ackSeqNum then some (s, .ok [])
    else (s.accept packet.seqNum now).bind fun s => s.feedPayload packet.seqNum payload now

def feedPacket (s : MirrorSession C) (packetBytes : Bytes) (now : Instant) :
    Option (MirrorSession C × Except Error (List ClientAction)) :=
  let opened := PacketCodec.openServer s.codec packetBytes
  match opened.2 with
  | .ok (some (packet, payload, stats)) =>
    { s with codec := opened.1 }.feedOpened packet payload stats now
  | _ => some ({ s with codec := opened.1 }, .ok [])

/-! ### Input -/

/-- The loop over stdin: the bytes to send and the actions so far, and whether `~.` ended it. -/
def interpret (s : MirrorSession C) :
    Bytes → Bytes → List ClientAction → MirrorSession C × Bytes × List ClientAction × Bool
  | [], send, actions => (s, send, actions, false)
  | b :: buf, send, actions =>
    let handled := s.interpreter.handleByte b
    let s := { s with interpreter := handled.1 }
    match handled.2 with
    | .sendBytes bs => s.interpret buf (send ++ bs) actions
    | .consume => s.interpret buf send actions
    | .command .disconnect => (s, send, actions ++ [.disconnect], true)
    | .command .suspend =>
      interpret { s with mirror := s.mirror.markDirty } buf send (actions ++ [.suspend])
    | .command .help =>
      interpret { s with mirror := s.mirror.markDirty } buf send (actions ++ [.showHelp])
    | .command .toggleOverlay =>
      interpret { s with mirror := s.mirror.toggleOverlay } buf send (actions ++ [.paint])

def isAsciiControl (b : UInt8) : Bool := b < 0x20 || b == 0x7f

/-- Keystrokes are sent, and drawn at once if the server echoes them. -/
def sendKeys (s : MirrorSession C) (keys : Bytes) (actions : List ClientAction) (now : Instant) :
    Option (MirrorSession C × Except Error (List ClientAction)) :=
  match s.prepareKeystrokes keys now with
  | (s, .error e) => some (s, .error e)
  | (s, .ok (bytes, seq)) =>
    if s.isEchoEnabled && keys.all fun b => !isAsciiControl b then
      (s.mirror.predictInput keys seq).map fun mirror =>
        ({ s with mirror }, .ok (actions ++ [.paint, .sendPacket bytes]))
    else some (s, .ok (actions ++ [.sendPacket bytes]))

def feedStdin (s : MirrorSession C) (buf : Bytes) (now : Instant) :
    Option (MirrorSession C × Except Error (List ClientAction)) :=
  match s.interpret buf [] [] with
  | (s, send, actions, disconnected) =>
    if disconnected then some (s, .ok actions)
    else if send.isEmpty then some (s, .ok actions)
    else s.sendKeys send actions now

def onWinch (s : MirrorSession C) (cols rows : ℕ) (now : Instant) :
    Option (MirrorSession C × Except Error (List ClientAction)) :=
  match s.prepareResize cols rows now with
  | (s, .error e) => some (s, .error e)
  | (s, .ok (bytes, _)) =>
    s.mirror.abortPrediction.map fun mirror =>
      ({ s with mirror := mirror.markDirty }, .ok [.sendPacket bytes, .paint])

/-! ### Timers -/

/-- 1. A keepalive when the interval is over. -/
def tickKeepalive (s : MirrorSession C) (now : Instant) :
    MirrorSession C × Except Error (List ClientAction) :=
  if now - s.lastKeepaliveSent ≥ s.keepaliveInterval then
    match s.prepareKeepalive now with
    | (s, .error e) => (s, .error e)
    | (s, .ok (bytes, _)) => (s, .ok [.sendPacket bytes])
  else (s, .ok [])

/-- Twice the round trip, between 200 and 1000 ms. -/
def rttLimit (s : MirrorSession C) : ℕ := millis (min (max (s.mirror.rttMs * 2) 200) 1000)

/-- 2. Every 100 ms the packets unacknowledged for that long are sent again. -/
def tickArq (s : MirrorSession C) (now : Instant) : MirrorSession C × List ClientAction :=
  if now - s.lastArqCheck ≥ millis 100 then
    let due := fun (sentTime : Instant) => decide (now - sentTime ≥ s.rttLimit)
    ({ s with lastArqCheck := now,
              unackedPackets := s.unackedPackets.map fun _ (bytes, sentTime) =>
                (bytes, if due sentTime then now else sentTime) },
      (s.unackedPackets.toList.filter fun (_, _, sentTime) => due sentTime).map
        fun (_, bytes, _) => .sendPacket bytes)
  else (s, [])

/-- The heartbeat of an outage, slower the longer it lasts. -/
def outageInterval (silence : ℕ) : ℕ :=
  if silence < secs 5 then secs 2
  else if silence < secs 15 then secs 5
  else if silence < secs 60 then secs 15
  else if silence < secs 180 then secs 60
  else if silence < secs 600 then secs 120
  else secs 180

/-- 3. The reconnection banner, and with it the heartbeat, follows the silence. -/
def tickBanner (s : MirrorSession C) (now : Instant) : Option (MirrorSession C × List ClientAction) :=
  let silence := now - s.lastRecvTime
  let needsBanner := decide (silence > millis 5000)
  if s.isReconnecting ≠ needsBanner then
    (s.mirror.setReconnecting needsBanner).map fun mirror =>
      ({ s with isReconnecting := needsBanner, mirror, keepaliveInterval := outageInterval silence },
        [.paint])
  else some (s, [])

/-- `Duration::as_secs_f32`. -/
def asSecsF32 (elapsed : ℕ) : Float32 :=
  (elapsed / 10 ^ 9).toFloat32 + (elapsed % 10 ^ 9).toFloat32 / 1000000000.0

/-- 4. Bandwidth, compression and frame rate, once per second. -/
def tickTelemetry (s : MirrorSession C) (now : Instant) : MirrorSession C × List ClientAction :=
  let elapsed := now - s.lastTelemetryCalc
  if elapsed ≥ secs 1 then
    let kbS := s.bytesRecvAcc.toFloat32 / 1024.0 / asSecsF32 elapsed
    let ratio := if s.compAcc > 0 ∧ s.decompAcc > 0 then s.decompAcc.toFloat32 / s.compAcc.toFloat32
      else 1.0
    let fps := (s.paintCountAcc.toFloat32 / asSecsF32 elapsed).round.toUInt32.toNat
    ({ s with mirror := (s.mirror.recordBandwidthCompression kbS ratio).recordFps fps,
              bytesRecvAcc := 0, compAcc := 0, decompAcc := 0, paintCountAcc := 0,
              lastTelemetryCalc := now }, [.paint])
  else (s, [])

/-- A frame is asked for again after 100 ms. -/
def shouldNack (s : MirrorSession C) (frameSeq : ℕ) (now : Instant) : Bool :=
  match s.nackedFrames[frameSeq]? with
  | some lastSent => now - lastSent ≥ millis 100
  | none => true

/-- The loop over the incomplete frames. -/
def nackAll (now : Instant) : List (ℕ × List ℕ) → MirrorSession C → List ClientAction →
    MirrorSession C × Except Error (List ClientAction)
  | [], s, actions => (s, .ok actions)
  | (frameSeq, receivedMask) :: rest, s, actions =>
    if s.shouldNack frameSeq now then
      match ({ s with nackedFrames := s.nackedFrames.insert frameSeq now }).prepareFragmentNack
        frameSeq receivedMask with
      | (s, .error e) => (s, .error e)
      | (s, .ok bytes) => nackAll now rest s (actions ++ [.sendPacket bytes])
    else nackAll now rest s actions

/-- 5. Every 40 ms the missing fragments are asked for. -/
def tickNack (s : MirrorSession C) (now : Instant) :
    MirrorSession C × Except Error (List ClientAction) :=
  if now - s.lastNackCheck ≥ millis 40 then
    match nackAll now (PacketCodec.getIncompleteFrames s.codec) { s with lastNackCheck := now } [] with
    | (s, .error e) => (s, .error e)
    | (s, .ok actions) =>
      ({ s with nackedFrames := s.nackedFrames.filter fun seq time =>
          decide (seq > s.ackSeqNum) && decide (now - time < secs 2) }, .ok actions)
  else (s, .ok [])

def onTick (s : MirrorSession C) (now : Instant) :
    Option (MirrorSession C × Except Error (List ClientAction)) :=
  match s.tickKeepalive now with
  | (s, .error e) => some (s, .error e)
  | (s, .ok keepalive) =>
    let arq := s.tickArq now
    (arq.1.tickBanner now).map fun banner =>
      let telemetry := banner.1.tickTelemetry now
      let nack := telemetry.1.tickNack now
      (nack.1, nack.2.map fun nacks => keepalive ++ arq.2 ++ banner.2 ++ telemetry.2 ++ nacks)

/-- `copy_frame_if_dirty`, on the way to the renderer. -/
def copyFrameIfDirty (s : MirrorSession C) (dest : TerminalFrame) :
    MirrorSession C × TerminalFrame × Bool :=
  let (mirror, dest, updated) := s.mirror.consumeUpdates dest
  if updated then ({ s with mirror, paintCountAcc := s.paintCountAcc + 1 }, dest, true)
  else ({ s with mirror }, dest, false)

end MirrorSession

end Rumsh.Client
