import Rumsh.Protocol.RoundTrip
import Rumsh.Server.Emits
import Rumsh.Client.Steps

/-! A server session and a client session with a network between them.

    `up` and `down` hold every datagram ever sent. A delivery picks one of them by position, so the
    network loses, duplicates, delays and reorders as it likes. Every frame job handed out is kept, and
    may be run at any time, any number of times, or never. -/

namespace Rumsh.System
open Rumsh.Schemes Rumsh.Protocol Rumsh.Server Rumsh.Client

structure Link (C T : Type) where
  server : AuthoritativeSession C T
  client : MirrorSession C
  up : List Bytes
  down : List Bytes
  jobs : List (UpdateJob C)

inductive LinkEvent where
  | ptyBytes (data : Bytes) (now : Instant)
  | serverTick (now : Instant) (echo : Bool)
  | deliverUp (i : ℕ) (src : SocketAddr) (now : Instant) (echo : Bool)
  | runJob (i : ℕ)
  -- a handshake packet of session 0, from the client's handshake loop
  | handshake (seq cols rows : ℕ)
  | stdin (buf : Bytes) (now : Instant)
  | winch (cols rows : ℕ) (now : Instant)
  | clientTick (now : Instant)
  | paint (dest : TerminalFrame)
  | deliverDown (i : ℕ) (now : Instant)

/-- The datagrams of a frame job; a job that fails has none. -/
def jobDatagrams {C : Type} [PacketCodec C] (job : UpdateJob C) : List Bytes :=
  match job.run with
  | some (.ok datagrams) => datagrams
  | _ => []

theorem mem_jobDatagrams {C : Type} [PacketCodec C] {job : UpdateJob C} {b : Bytes}
    (h : b ∈ jobDatagrams job) :
    ∃ update datagrams,
      job.currentState.diffFrom job.refState job.refSeq job.isEchoRecommended = some update ∧
      PacketCodec.sealServer job.codec job.seq job.ackSeq (.frame update) = .ok datagrams ∧
      b ∈ datagrams := by
  unfold jobDatagrams at h
  split at h
  · rename_i datagrams hrun
    obtain ⟨update, hu, hseal⟩ := Option.map_eq_some_iff.mp hrun
    exact ⟨update, datagrams, hu, hseal, h⟩
  · cases h

/-- The server's last packet is the last datagram of a sealed `Shutdown`. -/
theorem mem_prepareShutdown {cr : Crates} {T : Type} {s : AuthoritativeSession (ChaChaCodec cr) T}
    {b : Bytes} (hb : b ∈ datagramsOf (actionsOf (s.prepareShutdown.2.map fun action => [action]))) :
    ∃ ds, s.codec.sealServer (s.seqNum + 1) 0 .shutdown = .ok ds ∧ ds.getLast? = some b := by
  simp only [AuthoritativeSession.prepareShutdown, AuthoritativeSession.sealNext] at hb
  cases hseal : PacketCodec.sealServer s.codec (s.seqNum + 1) 0 .shutdown with
  | error e => simp [hseal, Except.map, actionsOf] at hb
  | ok ds =>
    simp only [hseal, Except.map, actionsOf, datagramsOf, List.filterMap_cons, List.filterMap_nil,
      List.mem_singleton] at hb
    obtain ⟨d, hd⟩ := Option.isSome_iff_exists.mp
      (List.getLast?_isSome.mpr (ChaChaCodec.sealServer_ne_nil hseal))
    rw [hd, Option.getD_some] at hb
    exact ⟨ds, hseal, hb ▸ hd⟩

namespace Link
variable {C T : Type} [PacketCodec C] [TerminalState T]

def start (server : AuthoritativeSession C T) (client : MirrorSession C) : Link C T :=
  { server, client, up := [], down := [], jobs := [] }

/-- A turn of the server. -/
def serve (l : Link C T) (ev : SessionEvent) : Option (Link C T) :=
  (l.server.turn ev).map fun (server, actions) =>
    { l with server, down := l.down ++ datagramsOf actions, jobs := l.jobs ++ jobsOf actions }

/-- A turn of the client. -/
def react (l : Link C T) (ev : MirrorEvent) : Option (Link C T) :=
  (l.client.turn ev).map fun (client, out) => { l with client, up := l.up ++ out }

def step (l : Link C T) : LinkEvent → Option (Link C T)
  | .ptyBytes data now => l.serve (.ptyBytes data now)
  | .serverTick now echo => l.serve (.tick now echo)
  | .deliverUp i src now echo =>
    match l.up[i]? with
    | some bytes => l.serve (.packet bytes src now echo)
    | none => some l
  | .runJob i =>
    match l.jobs[i]? with
    | some job => some { l with down := l.down ++ jobDatagrams job }
    | none => some l
  | .handshake seq cols rows =>
    match PacketCodec.sealClient l.client.codec 0 seq 0 (.handshake 1 cols rows) with
    | .ok bytes => some { l with up := l.up ++ [bytes] }
    | .error _ => some l
  | .stdin buf now => l.react (.stdin buf now)
  | .winch cols rows now => l.react (.winch cols rows now)
  | .clientTick now => l.react (.tick now)
  | .paint dest => l.react (.paint dest)
  | .deliverDown i now =>
    match l.down[i]? with
    | some bytes => l.react (.recv bytes now)
    | none => some l

/-- INVERSION: a step is a turn of one side, a job that is run, or a handshake packet. -/
theorem step_cases {l l' : Link C T} {ev : LinkEvent} (h : l.step ev = some l') :
    l' = l ∨
    (∃ sev, l.serve sev = some l' ∧
      ∀ bytes src now echo, sev = .packet bytes src now echo → bytes ∈ l.up) ∨
    (∃ job ∈ l.jobs, l' = { l with down := l.down ++ jobDatagrams job }) ∨
    (∃ seq cols rows bytes,
      PacketCodec.sealClient l.client.codec 0 seq 0 (.handshake 1 cols rows) = .ok bytes ∧
      l' = { l with up := l.up ++ [bytes] }) ∨
    (∃ cev, l.react cev = some l' ∧ ∀ bytes now, cev = .recv bytes now → bytes ∈ l.down) := by
  cases ev with
  | ptyBytes data now => exact .inr (.inl ⟨_, h, by rintro _ _ _ _ ⟨⟩⟩)
  | serverTick now echo => exact .inr (.inl ⟨_, h, by rintro _ _ _ _ ⟨⟩⟩)
  | deliverUp i src now echo =>
    simp only [step] at h
    split at h
    · rename_i bytes hb
      refine .inr (.inl ⟨_, h, ?_⟩)
      rintro _ _ _ _ ⟨⟩
      exact List.mem_of_getElem? hb
    · exact .inl (Option.some.inj h).symm
  | runJob i =>
    simp only [step] at h
    split at h
    · rename_i job hj
      exact .inr (.inr (.inl ⟨job, List.mem_of_getElem? hj, (Option.some.inj h).symm⟩))
    · exact .inl (Option.some.inj h).symm
  | handshake seq cols rows =>
    simp only [step] at h
    split at h
    · rename_i bytes hb
      exact .inr (.inr (.inr (.inl ⟨seq, cols, rows, bytes, hb, (Option.some.inj h).symm⟩)))
    · exact .inl (Option.some.inj h).symm
  | stdin buf now => exact .inr (.inr (.inr (.inr ⟨_, h, by rintro _ _ ⟨⟩⟩)))
  | winch cols rows now => exact .inr (.inr (.inr (.inr ⟨_, h, by rintro _ _ ⟨⟩⟩)))
  | clientTick now => exact .inr (.inr (.inr (.inr ⟨_, h, by rintro _ _ ⟨⟩⟩)))
  | paint dest => exact .inr (.inr (.inr (.inr ⟨_, h, by rintro _ _ ⟨⟩⟩)))
  | deliverDown i now =>
    simp only [step] at h
    split at h
    · rename_i bytes hb
      refine .inr (.inr (.inr (.inr ⟨_, h, ?_⟩)))
      rintro _ _ ⟨⟩
      exact List.mem_of_getElem? hb
    · exact .inl (Option.some.inj h).symm

end Link

end Rumsh.System
