import Rumsh.Schemes.Run
import Rumsh.Client.Session

/-! The client's network adapter of `src/client/network.rs`: the handshake loop, and the turns of the
    main loop. -/

namespace Rumsh.Client
open Rumsh.Schemes Rumsh.Protocol

/-! ### Handshake -/

/-- The datagram of one turn of the handshake loop, under the crypto of session 0. -/
def handshakePacket (cr : Crates) (cryptoHandshake : CryptoManager) (handshakeSeq cols rows : ℕ) :
    Except Error Bytes := do
  let payloadBytes ← serialize cr.clientPayload (.handshake 1 cols rows)
  let ciphertext ← cryptoHandshake.encrypt cr handshakeSeq payloadBytes
  serialize cr.clientPacket
    { sessionId := 0, seqNum := handshakeSeq, ackSeqNum := 0, ciphertext }

/-- The acceptance test of the handshake loop: the session id, and the number of the reply. -/
def acceptReply (cr : Crates) (cryptoHandshake : CryptoManager) (handshakeSeq : ℕ) (buf : Bytes) :
    Option (ℕ × ℕ) :=
  match deserialize cr.serverPacket buf with
  | .error _ => none
  | .ok serverPacket =>
    if serverPacket.ackSeqNum = handshakeSeq then
      match cryptoHandshake.decrypt cr serverPacket.seqNum serverPacket.ciphertext with
      | .error _ => none
      | .ok payloadBytes =>
        match deserialize cr.serverPayload payloadBytes with
        | .ok (.handshakeAck sessionId) => some (sessionId, serverPacket.seqNum)
        | _ => none
    else none

/-! ### The main loop -/

/-- What the main loop reacts to, and the painting it does in between. -/
inductive MirrorEvent where
  | recv (bytes : Bytes) (now : Instant)
  | stdin (buf : Bytes) (now : Instant)
  | winch (cols rows : ℕ) (now : Instant)
  | tick (now : Instant)
  | paint (dest : TerminalFrame)

/-- The datagrams among the actions. -/
def sendsOf (actions : List ClientAction) : List Bytes :=
  actions.filterMap fun
    | .sendPacket bytes => some bytes
    | _ => none

@[simp] theorem sendsOf_nil : sendsOf [] = [] := rfl

@[simp] theorem sendsOf_append (as bs : List ClientAction) :
    sendsOf (as ++ bs) = sendsOf as ++ sendsOf bs := List.filterMap_append

@[simp] theorem sendsOf_sendPacket (bytes : Bytes) (as : List ClientAction) :
    sendsOf (.sendPacket bytes :: as) = bytes :: sendsOf as := rfl

@[simp] theorem sendsOf_paint (as : List ClientAction) : sendsOf (.paint :: as) = sendsOf as := rfl

/-- The datagrams of a turn; one that fails sends nothing. -/
def outOf : Except Error (List ClientAction) → List Bytes
  | .ok actions => sendsOf actions
  | .error _ => []

namespace MirrorSession
variable {C : Type} [PacketCodec C]

def react (s : MirrorSession C) :
    MirrorEvent → Option (MirrorSession C × Except Error (List ClientAction))
  | .recv bytes now => s.feedPacket bytes now
  | .stdin buf now => s.feedStdin buf now
  | .winch cols rows now => s.onWinch cols rows now
  | .tick now => s.onTick now
  | .paint dest => some ((s.copyFrameIfDirty dest).1, .ok [])

/-- One turn: the session and the datagrams it sends. -/
def turn (s : MirrorSession C) (ev : MirrorEvent) : Option (MirrorSession C × List Bytes) :=
  (s.react ev).map fun (s', r) => (s', outOf r)

/-- The session after an event. -/
def step (s : MirrorSession C) (ev : MirrorEvent) : Option (MirrorSession C) :=
  (s.turn ev).map Prod.fst

variable {s s' : MirrorSession C} {ev : MirrorEvent} {out : List Bytes}

theorem turn_eq_some_iff : s.turn ev = some (s', out) ↔ ∃ r, s.react ev = some (s', r) ∧ outOf r = out := by
  rw [turn, Option.map_eq_some_iff]
  constructor
  · rintro ⟨⟨t, r⟩, hr, heq⟩
    obtain ⟨rfl, rfl⟩ := Prod.mk.inj heq
    exact ⟨r, hr, rfl⟩
  · rintro ⟨r, hr, rfl⟩
    exact ⟨_, hr, rfl⟩

theorem step_eq_some_iff : s.step ev = some s' ↔ ∃ r, s.react ev = some (s', r) := by
  rw [step, Option.map_eq_some_iff]
  constructor
  · rintro ⟨⟨t, out⟩, ht, rfl⟩
    obtain ⟨r, hr, -⟩ := turn_eq_some_iff.mp ht
    exact ⟨r, hr⟩
  · rintro ⟨r, hr⟩
    exact ⟨_, turn_eq_some_iff.mpr ⟨r, hr, rfl⟩, rfl⟩

end MirrorSession

end Rumsh.Client
