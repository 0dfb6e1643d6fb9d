import Rumsh.System.Handshake
import Rumsh.System.Link
import Rumsh.Server.Replay

/-! The two programs from their start: `run_client` and `run_server` with a network between them.

    The client's handshake loop numbers its attempts from 1 and starts a session on the first reply it
    can read; the server waits for a handshake, answers it, and serves. As in `Link`, a delivery picks a
    datagram ever sent by its position, and frame jobs run at any time or never. -/

namespace Rumsh.System
open Rumsh.Schemes Rumsh.Protocol Rumsh.Server Rumsh.Client

/-- What a pair of programs is started with: the shared key, the server's random session id, and the
    client's terminal. -/
structure Setup where
  key : Key
  sessionId : ℕ
  cols : ℕ
  rows : ℕ
  overlay : Bool

/-- `CryptoManager::new(&key_bytes, 0)`, on both sides. -/
def Setup.cryptoHandshake (setup : Setup) : CryptoManager := CryptoManager.new setup.key 0

/-- The client before and after its handshake. -/
inductive ClientPhase (cr : Crates) where
  | connecting
  | connected (session : MirrorSession (ChaChaCodec cr))

structure World (cr : Crates) (T : Type) where
  server : ServerPhase cr T
  client : ClientPhase cr
  handshakeSeq : ℕ
  up : List Bytes
  down : List Bytes
  jobs : List (UpdateJob (ChaChaCodec cr))
  -- ghost: the handshake numbers encrypted
  attempts : List ℕ
  -- ghost: the jobs that were run
  ran : List (UpdateJob (ChaChaCodec cr))
  -- ghost: the numbered payloads the server applied
  applied : List (ℕ × ClientPayload)

inductive WorldEvent where
  -- 500 ms without an answer to the handshake
  | timeout
  -- a datagram arrives in the handshake loop; the rest is read after it, if it ends the loop
  | reply (i cols rows : ℕ) (start now : Instant)
  | deliverDown (i : ℕ) (now : Instant)
  | stdin (buf : Bytes) (now : Instant)
  | winch (cols rows : ℕ) (now : Instant)
  | clientTick (now : Instant)
  | paint (dest : TerminalFrame)
  | deliverUp (i : ℕ) (src : SocketAddr) (now : Instant) (echo : Bool)
  | ptyBytes (data : Bytes) (now : Instant)
  | serverTick (now : Instant) (echo : Bool)
  | runJob (i : ℕ)
  | shutdown

namespace World
variable {cr : Crates} {T : Type} [TerminalState T]

/-! ### The client's program -/

/-- One turn of the handshake loop up to its wait. -/
def attempt (setup : Setup) (w : World cr T) : World cr T :=
  let w := { w with attempts := w.attempts ++ [w.handshakeSeq] }
  match handshakePacket cr setup.cryptoHandshake w.handshakeSeq setup.cols setup.rows with
  | .ok bytes => { w with up := w.up ++ [bytes] }
  | .error _ => w

/-- After the loop: a session, and the initial resize. -/
def connect (setup : Setup) (w : World cr T) (sessionId serverSeq cols rows : ℕ) (start now : Instant) :
    Option (World cr T) :=
  let session := MirrorSession.new sessionId (ChaChaCodec.new cr setup.key sessionId) serverSeq
    cols rows setup.overlay start
  (session.turn (.winch cols rows now)).map fun (session, out) =>
    { w with client := .connected session, up := w.up ++ out }

/-- A turn of the client's main loop. -/
def react (w : World cr T) (ev : MirrorEvent) : Option (World cr T) :=
  match w.client with
  | .connecting => some w
  | .connected session =>
    (session.turn ev).map fun (session, out) =>
      { w with client := .connected session, up := w.up ++ out }

/-! ### The server's program -/

/-- After the wait: a session, unless its terminal cannot be made. -/
def startSession (setup : Setup) (handshake : HandshakeResult) (now : Instant) : ServerPhase cr T :=
  match AuthoritativeSession.new handshake.sessionId (ChaChaCodec.new cr setup.key handshake.sessionId)
    handshake.clientStartSeq handshake.clientAddr handshake.cols handshake.rows now with
  | .ok session => .serving session
  | .error _ => .stopped

/-- A turn of the server's session. -/
def serve (w : World cr T) (ev : SessionEvent) : Option (World cr T) :=
  match w.server with
  | .serving session =>
    (session.turn ev).map fun (session', actions) =>
      { w with
        server := .serving session', down := w.down ++ datagramsOf actions
        jobs := w.jobs ++ jobsOf actions, applied := w.applied ++ session.applies ev }
  | _ => some w

/-- A datagram reaches the server. -/
def receive (setup : Setup) (w : World cr T) (bytes : Bytes) (src : SocketAddr) (now : Instant)
    (echo : Bool) : Option (World cr T) :=
  match w.server with
  | .waiting =>
    (waitForClientHandshake cr setup.cryptoHandshake setup.sessionId bytes src).map fun
      | none => w
      | some (handshake, reply) =>
        { w with server := startSession setup handshake now, down := w.down ++ reply }
  | _ => w.serve (.packet bytes src now echo)

/-- The PTY has exited: a last packet to the client. -/
def sendShutdown (w : World cr T) : World cr T :=
  match w.server with
  | .serving session =>
    let last := session.prepareShutdown
    { w with
      server := .serving last.1
      down := w.down ++ datagramsOf (actionsOf (last.2.map fun action => [action])) }
  | _ => w

/-! ### Steps -/

/-- Nothing has been sent. -/
def initial : World cr T :=
  { server := .waiting, client := .connecting, handshakeSeq := 1, up := [], down := [], jobs := [],
    attempts := [], ran := [], applied := [] }

/-- The first handshake is on its way. -/
def start (setup : Setup) : World cr T := attempt setup initial

def step (setup : Setup) (w : World cr T) : WorldEvent → Option (World cr T)
  | .timeout =>
    match w.client with
    | .connecting => some (attempt setup { w with handshakeSeq := w.handshakeSeq + 1 })
    | .connected _ => some w
  | .reply i cols rows start now =>
    match w.client, w.down[i]? with
    | .connecting, some bytes =>
      match acceptReply cr setup.cryptoHandshake w.handshakeSeq bytes with
      | some (sessionId, serverSeq) => w.connect setup sessionId serverSeq cols rows start now
      | none => some (attempt setup w)
    | _, _ => some w
  | .deliverDown i now =>
    match w.down[i]? with
    | some bytes => w.react (.recv bytes now)
    | none => some w
  | .stdin buf now => w.react (.stdin buf now)
  | .winch cols rows now => w.react (.winch cols rows now)
  | .clientTick now => w.react (.tick now)
  | .paint dest => w.react (.paint dest)
  | .deliverUp i src now echo =>
    match w.up[i]? with
    | some bytes => w.receive setup bytes src now echo
    | none => some w
  | .ptyBytes data now => w.serve (.ptyBytes data now)
  | .serverTick now echo => w.serve (.tick now echo)
  | .runJob i =>
    match w.jobs[i]? with
    | some job => some { w with down := w.down ++ jobDatagrams job, ran := w.ran ++ [job] }
    | none => some w
  | .shutdown => some w.sendShutdown

/-- All that an event can do. -/
inductive Moves (setup : Setup) (w : World cr T) (ev : WorldEvent) : World cr T → Prop
  | stay : Moves setup w ev w
  | attempt {n : ℕ} (hc : w.client = .connecting) (hn : w.handshakeSeq ≤ n) :
      Moves setup w ev (attempt setup { w with handshakeSeq := n })
  | connect {bytes : Bytes} {sid seq cols rows : ℕ} {start now : Instant}
      {c : MirrorSession (ChaChaCodec cr)} {out : List Bytes} (hc : w.client = .connecting)
      (hb : bytes ∈ w.down)
      (hacc : acceptReply cr setup.cryptoHandshake w.handshakeSeq bytes = some (sid, seq))
      (ht : (MirrorSession.new sid (ChaChaCodec.new cr setup.key sid) seq cols rows setup.overlay
        start).turn (.winch cols rows now) = some (c, out)) :
      Moves setup w ev { w with client := .connected c, up := w.up ++ out }
  | react {c c' : MirrorSession (ChaChaCodec cr)} {out : List Bytes} {cev : MirrorEvent}
      (hc : w.client = .connected c) (ht : c.turn cev = some (c', out))
      (hev : ∀ bytes now, cev = .recv bytes now → bytes ∈ w.down) :
      Moves setup w ev { w with client := .connected c', up := w.up ++ out }
  | accept {i : ℕ} {bytes : Bytes} {src : SocketAddr} {now : Instant} {echo : Bool}
      {h : HandshakeResult} {reply : List Bytes} (hs : w.server = .waiting)
      (hev : ev = .deliverUp i src now echo) (hb : w.up[i]? = some bytes)
      (hh : waitForClientHandshake cr setup.cryptoHandshake setup.sessionId bytes src =
        some (some (h, reply))) :
      Moves setup w ev { w with server := startSession setup h now, down := w.down ++ reply }
  | serve {s s' : AuthoritativeSession (ChaChaCodec cr) T}
      {actions : List (SessionAction (ChaChaCodec cr))} {sev : SessionEvent}
      (hs : w.server = .serving s) (ht : s.turn sev = some (s', actions))
      (hev : ∀ bytes src now echo, sev = .packet bytes src now echo →
        ∃ i, ev = .deliverUp i src now echo ∧ w.up[i]? = some bytes) :
      Moves setup w ev { w with
        server := .serving s', down := w.down ++ datagramsOf actions
        jobs := w.jobs ++ jobsOf actions, applied := w.applied ++ s.applies sev }
  | runJob {job : UpdateJob (ChaChaCodec cr)} (hj : job ∈ w.jobs) :
      Moves setup w ev { w with down := w.down ++ jobDatagrams job, ran := w.ran ++ [job] }
  | shutdown {s : AuthoritativeSession (ChaChaCodec cr) T} (hs : w.server = .serving s) :
      Moves setup w ev { w with
        server := .serving s.prepareShutdown.1
        down := w.down ++
          datagramsOf (actionsOf (s.prepareShutdown.2.map fun action => [action])) }

variable {setup : Setup} {w w' : World cr T} {ev : WorldEvent}

omit [TerminalState T] in
/-- An attempt sends at most its own handshake, and changes nothing else. -/
theorem attempt_eq (setup : Setup) (w : World cr T) :
    ∃ out, attempt setup w =
        { w with attempts := w.attempts ++ [w.handshakeSeq], up := w.up ++ out } ∧
      ∀ b ∈ out,
        handshakePacket cr setup.cryptoHandshake w.handshakeSeq setup.cols setup.rows = .ok b := by
  unfold attempt
  dsimp only
  split
  · rename_i bytes hb
    exact ⟨[bytes], rfl, fun b hmem => List.mem_singleton.mp hmem ▸ hb⟩
  · exact ⟨[], by rw [List.append_nil], by simp⟩

theorem startSession_ne_waiting (setup : Setup) (h : HandshakeResult) (now : Instant) :
    (startSession setup h now : ServerPhase cr T) ≠ .waiting := by
  unfold startSession
  split <;> simp

theorem react_moves {cev : MirrorEvent} (h : w.react cev = some w')
    (hev : ∀ bytes now, cev = .recv bytes now → bytes ∈ w.down) : Moves setup w ev w' := by
  unfold react at h
  split at h
  · cases h
    exact .stay
  · rename_i c hc
    obtain ⟨⟨c', out⟩, ht, rfl⟩ := Option.map_eq_some_iff.mp h
    exact .react hc ht hev

theorem serve_moves {sev : SessionEvent} (h : w.serve sev = some w')
    (hev : ∀ bytes src now echo, sev = .packet bytes src now echo →
      ∃ i, ev = .deliverUp i src now echo ∧ w.up[i]? = some bytes) : Moves setup w ev w' := by
  unfold serve at h
  split at h
  · rename_i s hs
    obtain ⟨⟨s', actions⟩, ht, rfl⟩ := Option.map_eq_some_iff.mp h
    exact .serve hs ht hev
  · cases h
    exact .stay

/-- INVERSION: a step is one of the moves. -/
theorem step_moves (h : w.step setup ev = some w') : Moves setup w ev w' := by
  cases ev with
  | timeout =>
    simp only [step] at h
    split at h
    · rename_i hc
      cases h
      exact .attempt hc (Nat.le_succ _)
    · cases h
      exact .stay
  | reply i cols rows start now =>
    simp only [step] at h
    split at h
    · rename_i bytes hc hb
      split at h
      · rename_i hacc
        obtain ⟨⟨c, out⟩, ht, rfl⟩ := Option.map_eq_some_iff.mp h
        exact .connect hc (List.mem_of_getElem? hb) hacc ht
      · cases h
        exact .attempt hc (Nat.le_refl _)
    · cases h
      exact .stay
  | deliverDown i now =>
    simp only [step] at h
    split at h
    · rename_i bytes hb
      refine react_moves h ?_
      rintro _ _ ⟨⟩
      exact List.mem_of_getElem? hb
    · cases h
      exact .stay
  | stdin buf now => exact react_moves h (by rintro _ _ ⟨⟩)
  | winch cols rows now => exact react_moves h (by rintro _ _ ⟨⟩)
  | clientTick now => exact react_moves h (by rintro _ _ ⟨⟩)
  | paint dest => exact react_moves h (by rintro _ _ ⟨⟩)
  | deliverUp i src now echo =>
    simp only [step] at h
    split at h
    · rename_i bytes hb
      unfold receive at h
      split at h
      · rename_i hs
        obtain ⟨r, hr, rfl⟩ := Option.map_eq_some_iff.mp h
        cases r with
        | none => exact .stay
        | some r => exact .accept hs rfl hb hr
      · refine serve_moves h ?_
        rintro _ _ _ _ ⟨⟩
        exact ⟨i, rfl, hb⟩
    · cases h
      exact .stay
  | ptyBytes data now => exact serve_moves h (by rintro _ _ _ _ ⟨⟩)
  | serverTick now echo => exact serve_moves h (by rintro _ _ _ _ ⟨⟩)
  | runJob i =>
    simp only [step] at h
    split at h
    · rename_i job hj
      cases h
      exact .runJob (List.mem_of_getElem? hj)
    · cases h
      exact .stay
  | shutdown =>
    cases h
    unfold sendShutdown
    split
    · rename_i s hs
      exact .shutdown hs
    · exact .stay

/-! ### Before the first handshake arrives -/

/-- As long as the server waits, the client is in its handshake loop and nothing but handshakes was
    sent. -/
structure Fresh (setup : Setup) (w : World cr T) : Prop where
  client : w.client = .connecting
  down : w.down = []
  jobs : w.jobs = []
  ran : w.ran = []
  applied : w.applied = []
  up : ∀ b ∈ w.up, ∃ n,
    handshakePacket cr setup.cryptoHandshake n setup.cols setup.rows = .ok b

omit [TerminalState T] in
theorem fresh_initial (setup : Setup) : Fresh setup (initial : World cr T) :=
  ⟨rfl, rfl, rfl, rfl, rfl, by simp [initial]⟩

omit [TerminalState T] in
theorem Fresh.attempt (h : Fresh setup w) : Fresh setup (attempt setup w) := by
  obtain ⟨out, heq, hout⟩ := attempt_eq setup w
  rw [heq]
  refine ⟨h.client, h.down, h.jobs, h.ran, h.applied, fun b hb => ?_⟩
  rcases List.mem_append.mp hb with hb | hb
  · exact h.up b hb
  · exact ⟨_, hout b hb⟩

/-- The datagram an event brings to the server. -/
def arriving (w : World cr T) : WorldEvent → Option Bytes
  | .deliverUp i _ _ _ => w.up[i]?
  | _ => none

/-- STEP: a waiting server goes on waiting exactly if nothing arrives. -/
theorem Fresh.step (hcr : cr.Lawful) (h : Fresh setup w) (hw : w.server = .waiting)
    (hstep : w.step setup ev = some w') :
    (w.arriving ev = none ∧ w'.server = .waiting ∧ Fresh setup w') ∨
    (w.arriving ev ≠ none ∧ w'.server ≠ .waiting) := by
  by_cases harr : w.arriving ev = none
  · refine .inl ⟨harr, ?_⟩
    cases step_moves hstep with
    | stay => exact ⟨hw, h⟩
    | attempt hc hn =>
      obtain ⟨out, heq, -⟩ := attempt_eq setup { w with handshakeSeq := _ }
      refine ⟨by rw [heq]; exact hw, Fresh.attempt ⟨h.client, h.down, h.jobs, h.ran, h.applied, h.up⟩⟩
    | connect hc hb => rw [h.down] at hb; cases hb
    | react hc => rw [h.client] at hc; cases hc
    | accept _ hev hb =>
      subst hev
      rw [World.arriving, hb] at harr
      cases harr
    | serve hs => rw [hw] at hs; cases hs
    | runJob hj => rw [h.jobs] at hj; cases hj
    | shutdown hs => rw [hw] at hs; cases hs
  · refine .inr ⟨harr, ?_⟩
    cases ev with
    | deliverUp i src now echo =>
      simp only [World.arriving] at harr
      obtain ⟨bytes, hb⟩ := Option.ne_none_iff_exists'.mp harr
      obtain ⟨n, hn⟩ := h.up bytes (List.mem_of_getElem? hb)
      simp only [World.step, hb, World.receive, hw, waitForClientHandshake,
        readHandshake_handshakePacket hcr hn, Option.map_map] at hstep
      obtain ⟨reply, -, rfl⟩ := Option.map_eq_some_iff.mp hstep
      exact startSession_ne_waiting setup _ now
    | _ => exact absurd rfl harr

/-- Once it has answered, the server never waits again. -/
theorem step_ne_waiting (h : w.server ≠ .waiting) (hs : w.step setup ev = some w') :
    w'.server ≠ .waiting := by
  cases step_moves hs with
  | stay => exact h
  | attempt hc hn =>
    obtain ⟨out, heq, -⟩ := attempt_eq setup { w with handshakeSeq := _ }
    rw [heq]
    exact h
  | connect => exact h
  | react => exact h
  | accept => exact startSession_ne_waiting _ _ _
  | serve => simp
  | runJob => exact h
  | shutdown => simp

/-- RUN: the server is still waiting exactly if nothing arrived. -/
theorem waiting_iff (hcr : cr.Lawful) {events : List WorldEvent} (hf : w.server = .waiting → Fresh setup w)
    (hrun : runFrom (step setup) w events = some w') :
    (w'.server = .waiting → Fresh setup w') ∧ (w'.server = .waiting ↔
      w.server = .waiting ∧ StepsMeet (step setup) (fun w ev => w.arriving ev = none) w events) := by
  induction events generalizing w with
  | nil =>
    cases hrun
    exact ⟨hf, by simp [StepsMeet]⟩
  | cons ev rest ih =>
    obtain ⟨t, ht, hrun⟩ := Option.bind_eq_some_iff.mp hrun
    by_cases hw : w.server = .waiting
    · rcases (hf hw).step hcr hw ht with ⟨harr, hwait, hfresh⟩ | ⟨harr, hwait⟩
      · obtain ⟨ih₁, ih₂⟩ := ih (fun _ => hfresh) hrun
        refine ⟨ih₁, ih₂.trans ?_⟩
        simp [StepsMeet, hw, hwait, harr, ht]
      · obtain ⟨ih₁, ih₂⟩ := ih (fun h => absurd h hwait) hrun
        refine ⟨ih₁, ih₂.trans ?_⟩
        simp [StepsMeet, hwait, harr]
    · have hwait := step_ne_waiting hw ht
      obtain ⟨ih₁, ih₂⟩ := ih (fun h => absurd h hwait) hrun
      exact ⟨ih₁, ih₂.trans (by simp [hw, hwait])⟩

end World

end Rumsh.System
