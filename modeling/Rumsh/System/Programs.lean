import Rumsh.System.Inputs
import Rumsh.Client.MainLoop
import Rumsh.Server.Updates

/-! The two programs as they run: `run_client` with its main loop and `run_server` with its tasks, a
    network between them.

    `World` has the sessions alone. Here their loops stand around them: what a turn drops, what a task
    skips, the cache of fragments and the shutdown handler. Every run of the programs is matched by a run
    of the world that is in the same sessions and has sent all they have. -/

namespace Rumsh.System
open Rumsh.Schemes Rumsh.Protocol Rumsh.Server Rumsh.Client

/-- `run_client`: in the handshake loop, in the main loop, or ended by an error before it. -/
inductive ClientProgram (B : Type) (cr : Crates) where
  | connecting
  | running (loop : MainLoop B (ChaChaCodec cr))
  | failed

namespace ClientProgram
variable {B : Type} {cr : Crates}

/-- What the main loop has handed to the socket. -/
def sent : ClientProgram B cr → List Bytes
  | .running l => l.sent
  | .connecting | .failed => []

/-- The world's view of the client. -/
def phase : ClientProgram B cr → ClientPhase cr
  | .running l => .connected l.session
  | .connecting | .failed => .connecting

end ClientProgram

/-- `run_server`: waiting for a handshake, running its tasks, with `left` copies of the last packet to go,
    or ended. -/
inductive ServerProgram (cr : Crates) (T : Type) where
  | waiting
  | running (node : ServerNode (ChaChaCodec cr) T)
  | leaving (node : ServerNode (ChaChaCodec cr) T) (last : Bytes × SocketAddr) (left : ℕ)
  | exited (sent : List (Bytes × SocketAddr))

namespace ServerProgram
variable {cr : Crates} {T : Type}

/-- The tasks, as long as they run. -/
def node : ServerProgram cr T → Option (ServerNode (ChaChaCodec cr) T)
  | .running n => some n
  | .leaving n _ _ => some n
  | .waiting | .exited _ => none

def withNode : ServerProgram cr T → ServerNode (ChaChaCodec cr) T → ServerProgram cr T
  | .running _, n => .running n
  | .leaving _ last left, n => .leaving n last left
  | .waiting, _ => .waiting
  | .exited sent, _ => .exited sent

/-- What has been handed to the socket. -/
def sent : ServerProgram cr T → List (Bytes × SocketAddr)
  | .waiting => []
  | .running n => n.sent
  | .leaving n _ _ => n.sent
  | .exited sent => sent

/-- After the handshake: the shell, the session, the tasks. -/
def begin [TerminalState T] (setup : Setup) (handshake : HandshakeResult) (reply : List Bytes)
    (now : Instant) (ptyOpens : Bool) : ServerProgram cr T :=
  let sent := reply.map fun bytes => (bytes, handshake.clientAddr)
  if ptyOpens then
    match AuthoritativeSession.new handshake.sessionId (ChaChaCodec.new cr setup.key handshake.sessionId)
      handshake.clientStartSeq handshake.clientAddr handshake.cols handshake.rows now with
    | .ok session => .running { ServerNode.start session with sent }
    | .error _ => .exited sent
  else .exited sent

/-- A turn of the shutdown handler: the last packet is made and sent, sent again, or was sent three
    times. -/
def farewell : ServerProgram cr T → ServerProgram cr T
  | .running n =>
    if n.shutdownRequested then
      match n.session.prepareShutdown with
      | (session, .ok (.sendPacket bytes target)) =>
        .leaving { n with session, sent := n.sent ++ [(bytes, target)] } (bytes, target) 2
      | _ => .exited n.sent
    else .running n
  | .leaving n last (left + 1) => .leaving { n with sent := n.sent ++ [last] } last left
  | .leaving n _ 0 => .exited n.sent
  | .waiting => .waiting
  | .exited sent => .exited sent

end ServerProgram

structure Programs (B : Type) (cr : Crates) (T : Type) where
  serverAddr : SocketAddr
  client : ClientProgram B cr
  handshakeSeq : ℕ
  -- the datagrams of the handshake loop
  handshakes : List Bytes
  server : ServerProgram cr T

inductive ProgramEvent (B : Type) where
  -- 500 ms without an answer, or an error of the socket
  | timeout
  -- a datagram in the handshake loop; the rest is met after it, if it ends the loop
  | reply (bytes : Bytes) (backend : B) (start now : Instant)
  | turn (t : Turn)
  -- a datagram in the server's wait, and whether the shell starts after it
  | greet (bytes : Bytes) (src : SocketAddr) (now : Instant) (ptyOpens : Bool)
  | task (ev : ServerNode.Event)
  -- the shell has exited
  | ptyClosed
  | farewell
  -- SIGINT or SIGTERM, or a minute without a handshake
  | terminated

namespace Programs
variable {B : Type} {cr : Crates} {T : Type}

/-- What the client, and what the server has handed to its socket. -/
def up (p : Programs B cr T) : List Bytes := p.handshakes ++ p.client.sent

def down (p : Programs B cr T) : List Bytes := p.server.sent.map Prod.fst

/-! ### Steps -/

/-- A turn of the handshake loop up to its wait. -/
def attempt (setup : Setup) (p : Programs B cr T) : Programs B cr T :=
  match handshakePacket cr setup.cryptoHandshake p.handshakeSeq setup.cols setup.rows with
  | .ok bytes => { p with handshakes := p.handshakes ++ [bytes] }
  | .error _ => { p with client := .failed }

def start (setup : Setup) (serverAddr : SocketAddr) : Programs B cr T :=
  attempt setup
    { serverAddr, client := .connecting, handshakeSeq := 1, handshakes := [], server := .waiting }

variable [TerminalState T]

/-- The datagram does not open at the server. -/
def foreign (setup : Setup) (p : Programs B cr T) (bytes : Bytes) : Bool :=
  match p.server.node with
  | none => (readHandshake cr setup.cryptoHandshake bytes).isNone
  | some n => (PacketCodec.openClient n.session.codec bytes).toOption.isNone

variable [LifecycleBackend B]

/-- What the network can bring: any datagram that was sent, at any time and any number of times; to the
    server also what does not open, and to the client's main loop anything from elsewhere. -/
def carries (setup : Setup) (p : Programs B cr T) : ProgramEvent B → Bool
  | .reply bytes _ _ _ => p.down.contains bytes
  | .turn t =>
    match p.client with
    | .running l => (t.datagram l.serverAddr).all fun bytes => p.down.contains bytes
    | .connecting | .failed => true
  | .greet bytes _ _ _ => p.up.contains bytes || p.foreign setup bytes
  | .task (.recv bytes _ _ _) => p.up.contains bytes || p.foreign setup bytes
  | _ => true

/-- The programs' part of a step. -/
def play (setup : Setup) (p : Programs B cr T) : ProgramEvent B → Option (Programs B cr T)
  | .timeout =>
    match p.client with
    | .connecting => some (attempt setup { p with handshakeSeq := p.handshakeSeq + 1 })
    | _ => some p
  | .reply bytes backend start now =>
    match p.client with
    | .connecting =>
      match acceptReply cr setup.cryptoHandshake p.handshakeSeq bytes with
      | none => some (attempt setup p)
      | some (sessionId, serverSeq) =>
        match TerminalLifecycle.withBackend backend with
        | .error _ => some { p with client := .failed }
        | .ok (lifecycle, cols, rows) =>
          ((MainLoop.new p.serverAddr (.new sessionId (.new cr setup.key sessionId) serverSeq cols rows
            setup.overlay start) lifecycle).launch cols rows now).map fun l =>
              { p with client := .running l }
    | _ => some p
  | .turn t =>
    match p.client with
    | .running l => (l.step t).map fun l => { p with client := .running l }
    | _ => some p
  | .greet bytes src now ptyOpens =>
    match p.server with
    | .waiting =>
      (waitForClientHandshake cr setup.cryptoHandshake setup.sessionId bytes src).map fun
        | none => p
        | some (handshake, reply) =>
          { p with server := .begin setup handshake reply now ptyOpens }
    | _ => some p
  | .task ev =>
    match p.server.node with
    | some n => (n.step ev).map fun n => { p with server := p.server.withNode n }
    | none => some p
  | .ptyClosed =>
    match p.server.node with
    | some n => some { p with server := p.server.withNode { n with shutdownRequested := true } }
    | none => some p
  | .farewell => some { p with server := p.server.farewell }
  | .terminated => some { p with server := .exited p.server.sent }

def step (setup : Setup) (p : Programs B cr T) (ev : ProgramEvent B) : Option (Programs B cr T) :=
  if p.carries setup ev then p.play setup ev else some p

/-- A session-0 packet gets past the server's guard and moves its window, with the client in its main
    loop. -/
def displaces (p : Programs B cr T) : ProgramEvent B → Bool
  | .task (.recv bytes src now echo) =>
    match p.client, p.server.node with
    | .running _, some n => n.session.displaces (.packet bytes src now echo)
    | _, _ => false
  | _ => false

/-! ### The server's tasks -/

/-- The jobs are among `jobs`, and the datagrams, the cached ones too, among `down`. -/
structure Within {C : Type} (jobs : List (UpdateJob C)) (down : List Bytes) (n : ServerNode C T) :
    Prop where
  sent : ∀ x ∈ n.sent, x.1 ∈ down
  job : ∀ x ∈ n.diffInFlight, x.1 ∈ jobs
  cache : ∀ e ∈ n.fragmentCache, ∀ b ∈ e.2, b ∈ down

section Tasks
variable {C : Type} {jobs jobs' : List (UpdateJob C)} {down down' : List Bytes} {n : ServerNode C T}

omit [TerminalState T] in
theorem Within.mono (h : Within jobs down n) (hj : jobs ⊆ jobs') (hd : down ⊆ down') :
    Within jobs' down' n :=
  ⟨fun x hx => hd (h.sent x hx), fun x hx => hj (h.job x hx), fun e he b hb => hd (h.cache e he b hb)⟩

/-- What is sent again is in the cache. -/
theorem mem_of_mem_missingFragments {cache : List (ℕ × List Bytes)} {frameSeq : ℕ} {mask : List ℕ}
    {b : Bytes} (h : b ∈ ServerNode.missingFragments cache frameSeq mask) : ∃ e ∈ cache, b ∈ e.2 := by
  unfold ServerNode.missingFragments at h
  split at h
  · rename_i seq packets hfind
    obtain ⟨⟨b', i⟩, hmem, rfl⟩ := List.mem_map.mp h
    exact ⟨_, List.mem_of_find?_eq_some hfind, List.fst_mem_of_mem_zipIdx (List.mem_filter.mp hmem).1⟩
  · cases h

/-- A frame's entry is added to the cache, or none is. -/
theorem mem_of_mem_cacheFragments {cache : List (ℕ × List Bytes)} {seq : ℕ} {packets : List Bytes}
    {e : ℕ × List Bytes} (h : e ∈ ServerNode.cacheFragments cache seq packets) :
    e ∈ cache ∨ e = (seq, packets) := by
  unfold ServerNode.cacheFragments at h
  split at h
  · rcases List.mem_append.mp h with h | h
    · split at h
      · exact .inl (List.mem_of_mem_tail h)
      · exact .inl h
    · exact .inr (List.mem_singleton.mp h)
  · exact .inl h

omit [TerminalState T] in
theorem Within.executeActions (actions : List (SessionAction C)) {n : ServerNode C T}
    (h : Within jobs down n) (hd : ∀ b ∈ datagramsOf actions, b ∈ down)
    (hj : ∀ job ∈ jobsOf actions, job ∈ jobs) : Within jobs down (n.executeActions actions) := by
  induction actions generalizing n with
  | nil => exact h
  | cons a rest ih =>
    refine ih ?_ (fun b hb => hd b ?_) fun job hjob => hj job ?_
    · cases a with
      | sendPacket bytes target =>
        refine ⟨fun x hx => ?_, h.job, h.cache⟩
        rcases List.mem_append.mp hx with hx | hx
        · exact h.sent x hx
        · rw [List.mem_singleton.mp hx]
          exact hd bytes (List.mem_cons_self ..)
      | offloadDiffJob job target =>
        simp only [ServerNode.executeAction]
        split
        · exact h
        · refine ⟨h.sent, fun x hx => ?_, h.cache⟩
          obtain rfl := Option.some.inj hx
          exact hj job (List.mem_cons_self ..)
      | resendFragments frameSeq mask target =>
        refine ⟨fun x hx => ?_, h.job, h.cache⟩
        rcases List.mem_append.mp hx with hx | hx
        · exact h.sent x hx
        · obtain ⟨b, hb, rfl⟩ := List.mem_map.mp hx
          obtain ⟨e, he, hbe⟩ := mem_of_mem_missingFragments hb
          exact h.cache e he b hbe
      | shutdown => exact ⟨h.sent, h.job, h.cache⟩
    · rw [show a :: rest = [a] ++ rest from rfl, datagramsOf_append]
      exact List.mem_append_right _ hb
    · rw [show a :: rest = [a] ++ rest from rfl, jobsOf_append]
      exact List.mem_append_right _ hjob

omit [TerminalState T] in
/-- The end of a job sends its datagrams. -/
theorem Within.finishJob [PacketCodec C] (h : Within jobs down n) {job : UpdateJob C}
    {target : SocketAddr} (hflight : n.diffInFlight = some (job, target)) :
    Within jobs (down ++ jobDatagrams job) n.finishJob := by
  have hmore := h.mono (List.Subset.refl jobs) (List.subset_append_left down (jobDatagrams job))
  unfold ServerNode.finishJob
  rw [hflight]
  dsimp only
  cases hrun : job.run with
  | none => exact hmore
  | some r =>
    cases r with
    | error e => exact ⟨hmore.sent, fun x hx => absurd hx (Option.not_mem_none x), hmore.cache⟩
    | ok packets =>
      have hpackets : jobDatagrams job = packets := by rw [jobDatagrams, hrun]
      refine ⟨fun x hx => ?_, fun x hx => absurd hx (Option.not_mem_none x), fun e he b hb => ?_⟩
      · rcases List.mem_append.mp hx with hx | hx
        · exact hmore.sent x hx
        · obtain ⟨b, hb, rfl⟩ := List.mem_map.mp hx
          exact List.mem_append_right _ (hpackets ▸ hb)
      · rcases mem_of_mem_cacheFragments he with he | rfl
        · exact hmore.cache e he b hb
        · exact List.mem_append_right _ (hpackets ▸ hb)

end Tasks

/-! ### The world's answers -/

section Answers
variable {setup : Setup} {w w' : World cr T}

/-- What the client's session is told, the world can tell it. -/
theorem exists_react (setup : Setup) {cev : MirrorEvent} (hev : ∀ bytes now, cev = .recv bytes now → bytes ∈ w.down) :
    ∃ ev, w.step setup ev = w.react cev ∧ w.displaces ev = false := by
  cases cev with
  | recv bytes now =>
    obtain ⟨i, hi⟩ := List.mem_iff_getElem?.mp (hev bytes now rfl)
    exact ⟨.deliverDown i now, by simp only [World.step, hi], rfl⟩
  | stdin buf now => exact ⟨.stdin buf now, rfl, rfl⟩
  | winch cols rows now => exact ⟨.winch cols rows now, rfl, rfl⟩
  | tick now => exact ⟨.clientTick now, rfl, rfl⟩
  | paint dest => exact ⟨.paint dest, rfl, rfl⟩

/-- RUN: a run of the client's session alone is one of the world. -/
theorem react_run (setup : Setup) (evs : List MirrorEvent) : ∀ {w : World cr T} {s s' : MirrorSession (ChaChaCodec cr)},
    w.client = .connected s → runFrom MirrorSession.step s evs = some s' →
    (∀ bytes now, .recv bytes now ∈ evs → bytes ∈ w.down) →
    ∃ wevs, runFrom (World.step setup) w wevs =
        some { w with client := .connected s', up := w.up ++ MainLoop.emits s evs } ∧
      StepsMeet (World.step setup) (fun w ev => w.displaces ev = false) w wevs := by
  induction evs with
  | nil =>
    intro w s s' hc hrun _
    cases hrun
    refine ⟨[], ?_, trivial⟩
    rw [runFrom_nil, MainLoop.emits, List.append_nil, ← hc]
  | cons cev evs ih =>
    intro w s s' hc hrun hrecv
    obtain ⟨t, ht, hrun⟩ := Option.bind_eq_some_iff.mp hrun
    obtain ⟨⟨t', out⟩, hturn, rfl⟩ := Option.map_eq_some_iff.mp ht
    obtain ⟨ev, hstep, hcalm⟩ := exists_react (w := w) setup
      fun bytes now heq => hrecv bytes now (heq ▸ List.mem_cons_self ..)
    have hw : w.step setup ev = some { w with client := .connected t', up := w.up ++ out } := by
      rw [hstep, World.react, hc]
      dsimp only
      rw [hturn]
      rfl
    obtain ⟨wevs, hwrun, hmeet⟩ := ih (w := { w with client := .connected t', up := w.up ++ out }) rfl hrun
      fun bytes now hmem => hrecv bytes now (List.mem_cons_of_mem _ hmem)
    refine ⟨ev :: wevs, ?_, hcalm, fun u hu => ?_⟩
    · rw [runFrom_cons, hw, Option.bind_some, hwrun, MainLoop.emits, hturn]
      dsimp only
      rw [List.append_assoc]
    · obtain rfl := Option.some.inj (hw.symm.trans hu)
      exact hmeet

/-- A turn of the server's session is one of the world. -/
theorem exists_serve (setup : Setup) {s : AuthoritativeSession (ChaChaCodec cr) T} {sev : SessionEvent}
    (hs : w.server = .serving s) (hev : ∀ bytes src now echo, sev = .packet bytes src now echo →
      bytes ∈ w.up) :
    ∃ ev, w.step setup ev = w.serve sev ∧ (w.displaces ev = true →
      (∃ c, w.client = .connected c) ∧ s.displaces sev = true) := by
  cases sev with
  | packet bytes src now echo =>
    obtain ⟨i, hi⟩ := List.mem_iff_getElem?.mp (hev bytes src now echo rfl)
    refine ⟨.deliverUp i src now echo, by simp only [World.step, hi, World.receive, hs], fun h => ?_⟩
    simp only [World.displaces, hs, hi] at h
    split at h
    · rename_i hc hserving hbytes
      cases hserving
      cases hbytes
      exact ⟨⟨_, hc⟩, h⟩
    · cases h
  | ptyBytes data now => exact ⟨.ptyBytes data now, rfl, fun h => absurd h Bool.false_ne_true⟩
  | tick now echo => exact ⟨.serverTick now echo, rfl, fun h => absurd h Bool.false_ne_true⟩

end Answers

/-! ### The refinement -/

/-- The world is in the same sessions, and has sent what the programs have sent or keep. -/
structure Refines (p : Programs B cr T) (w : World cr T) : Prop where
  client : w.client = p.client.phase
  handshakeSeq : w.handshakeSeq = p.handshakeSeq
  up : ∀ b ∈ p.up, b ∈ w.up
  down : ∀ b ∈ p.down, b ∈ w.down
  waiting : p.server = .waiting → w.server = .waiting
  node : ∀ n, p.server.node = some n → w.server = .serving n.session ∧ Within w.jobs w.down n
  last : ∀ n last left, p.server = .leaving n last left → last.1 ∈ w.down

/-- The world can follow to a state the programs refine, and moves no window under the condition. -/
def Matched (setup : Setup) (calm : Prop) (w : World cr T) (p' : Programs B cr T) : Prop :=
  ∃ evs w', runFrom (World.step setup) w evs = some w' ∧
    (calm → StepsMeet (World.step setup) (fun w ev => w.displaces ev = false) w evs) ∧ Refines p' w'

variable {setup : Setup} {p p' : Programs B cr T} {w w' : World cr T} {ev : ProgramEvent B} {calm : Prop}

omit [LifecycleBackend B] in
theorem Refines.matched (h : Refines p w) : Matched setup calm w p := ⟨[], w, rfl, fun _ => trivial, h⟩

omit [LifecycleBackend B] in
theorem matched_step (wev : WorldEvent) (w' : World cr T) (hs : w.step setup wev = some w')
    (hcalm : calm → w.displaces wev = false) (h : Refines p' w') : Matched setup calm w p' := by
  refine ⟨[wev], w', ?_, fun hc => ⟨hcalm hc, fun _ _ => trivial⟩, h⟩
  rw [runFrom_cons, hs]
  rfl

omit [TerminalState T] [LifecycleBackend B] in
/-- One more turn of the handshake loop. -/
theorem Refines.attempt (h : Refines p w) (hc : p.client = .connecting) :
    Refines (attempt setup p) (World.attempt setup w) := by
  have hup : ∀ b ∈ p.handshakes, b ∈ w.up := fun b hb => h.up b (List.mem_append_left _ hb)
  have hphase : w.client = .connecting := by rw [h.client, hc, ClientProgram.phase]
  unfold Programs.attempt World.attempt
  dsimp only
  rw [h.handshakeSeq]
  cases handshakePacket cr setup.cryptoHandshake p.handshakeSeq setup.cols setup.rows with
  | ok bytes =>
    dsimp only
    refine ⟨h.client, rfl, fun b hb => ?_, h.down, h.waiting, h.node, h.last⟩
    rcases List.mem_append.mp hb with hb | hb
    · rcases List.mem_append.mp hb with hb | hb
      · exact List.mem_append_left _ (hup b hb)
      · exact List.mem_append_right _ hb
    · rw [hc] at hb
      cases hb
  | error e =>
    dsimp only
    refine ⟨hphase, rfl, fun b hb => ?_, h.down, h.waiting, h.node, h.last⟩
    rcases List.mem_append.mp hb with hb | hb
    · exact hup b hb
    · cases hb

/-! ### Steps of the client -/

omit [LifecycleBackend B] in
theorem Refines.timeout (h : Refines p w) (hc : p.client = .connecting) :
    Matched setup calm w (Programs.attempt setup { p with handshakeSeq := p.handshakeSeq + 1 }) := by
  have hphase : w.client = .connecting := by rw [h.client, hc, ClientProgram.phase]
  have hnext : Refines { p with handshakeSeq := p.handshakeSeq + 1 }
      { w with handshakeSeq := w.handshakeSeq + 1 } :=
    ⟨h.client, congrArg (· + 1) h.handshakeSeq, h.up, h.down, h.waiting, h.node, h.last⟩
  refine matched_step .timeout _ ?_ (fun _ => rfl) (hnext.attempt hc)
  simp only [World.step, hphase]

/-- A datagram in the handshake loop: another attempt, an error of the terminal, or the main loop. -/
theorem Refines.reply {bytes : Bytes} {backend : B} {start now : Instant} (h : Refines p w)
    (hb : bytes ∈ p.down) (hstep : p.play setup (.reply bytes backend start now) = some p') :
    Matched setup calm w p' := by
  unfold play at hstep
  dsimp only at hstep
  split at hstep
  · rename_i hc
    have hphase : w.client = .connecting := by rw [h.client, hc, ClientProgram.phase]
    obtain ⟨i, hi⟩ := List.mem_iff_getElem?.mp (h.down bytes hb)
    split at hstep
    · rename_i hacc
      cases hstep
      refine matched_step (.reply i 0 0 start now) _ ?_ (fun _ => rfl) (h.attempt hc)
      simp only [World.step, hphase, hi, h.handshakeSeq, hacc]
    · rename_i sessionId serverSeq hacc
      split at hstep
      · cases hstep
        refine Refines.matched ⟨hphase, h.handshakeSeq, fun b hb => h.up b ?_, h.down, h.waiting, h.node,
          h.last⟩
        exact List.mem_append_left _ ((List.mem_append.mp hb).resolve_right List.not_mem_nil)
      · rename_i lifecycle cols rows _
        obtain ⟨l, hlaunch, rfl⟩ := Option.map_eq_some_iff.mp hstep
        obtain ⟨out, hfollows, hout⟩ := MainLoop.launch_follows hlaunch
        obtain ⟨t, ht, hnil⟩ := Option.bind_eq_some_iff.mp hfollows.run
        obtain ⟨⟨t', sends⟩, hturn, rfl⟩ := Option.map_eq_some_iff.mp ht
        have hturn : (MirrorSession.new sessionId (ChaChaCodec.new cr setup.key sessionId) serverSeq cols
          rows setup.overlay start).turn (.winch cols rows now) = some (t', sends) := hturn
        have hsession : t' = l.session := Option.some.inj hnil
        have hsent : l.sent.Sublist sends := by
          simp only [MainLoop.new, MainLoop.emits, hturn, List.append_nil] at hout
          rwa [hfollows.sent, MainLoop.new, List.nil_append]
        refine matched_step (.reply i cols rows start now)
          { w with client := .connected l.session, up := w.up ++ sends } ?_ (fun _ => rfl)
          ⟨rfl, h.handshakeSeq, fun b hb => ?_, h.down, h.waiting, h.node, h.last⟩
        · simp only [World.step, hphase, hi, h.handshakeSeq, hacc, World.connect, hturn, hsession]
          rfl
        · rcases List.mem_append.mp hb with hb | hb
          · exact List.mem_append_left _ (h.up b (List.mem_append_left _ hb))
          · exact List.mem_append_right _ (hsent.subset hb)
  · cases hstep
    exact h.matched

/-- A turn of the main loop: the world's client goes through what the session does. -/
theorem Refines.turn {t : Turn} (h : Refines p w) (hcarries : p.carries setup (.turn t) = true)
    (hstep : p.play setup (.turn t) = some p') : Matched setup calm w p' := by
  unfold play at hstep
  dsimp only at hstep
  split at hstep
  · rename_i l hc
    have hclient : w.client = .connected l.session := by rw [h.client, hc, ClientProgram.phase]
    obtain ⟨l', hl, rfl⟩ := Option.map_eq_some_iff.mp hstep
    rcases MainLoop.step_tells hl with ⟨-, rfl⟩ | ⟨-, evs, htells⟩
    · rw [← hc]
      exact h.matched
    · obtain ⟨out, hfollows, hout⟩ := htells.follows
      have hrecv : ∀ bytes now, MirrorEvent.recv bytes now ∈ evs → bytes ∈ w.down := by
        intro bytes now hmem
        have hfed : MirrorEvent.recv bytes now ∈ evs.filter MainLoop.fed := List.mem_filter.mpr ⟨hmem, rfl⟩
        rw [htells.others] at hfed
        have hinput := Option.mem_toList.mp (List.mem_filter.mp hfed).1
        simp only [carries, hc, Turn.datagram_eq_some (Option.mem_def.mp hinput), Option.all_some,
          List.contains_iff_mem] at hcarries
        exact h.down bytes hcarries
      obtain ⟨wevs, hrun, hmeet⟩ := react_run setup evs hclient hfollows.run hrecv
      refine ⟨wevs, _, hrun, fun _ => hmeet, rfl, h.handshakeSeq, fun b hb => ?_, h.down, h.waiting,
        h.node, h.last⟩
      rcases List.mem_append.mp hb with hb | hb
      · exact List.mem_append_left _ (h.up b (List.mem_append_left _ hb))
      · rw [ClientProgram.sent, hfollows.sent] at hb
        rcases List.mem_append.mp hb with hb | hb
        · refine List.mem_append_left _ (h.up b (List.mem_append_right _ ?_))
          rwa [hc]
        · exact List.mem_append_right _ (hout.subset hb)
  · cases hstep
    exact h.matched

/-! ### Steps of the server -/

omit [LifecycleBackend B] in
/-- The server's tasks are started, or `run_server` has failed. -/
theorem Refines.begin (h : Refines p w) (handshake : HandshakeResult) (reply : List Bytes) (now : Instant)
    (ptyOpens : Bool) :
    Refines { p with server := .begin setup handshake reply now ptyOpens }
      { w with
        server := (World.startSession setup handshake now : ServerPhase cr T)
        down := w.down ++ reply } := by
  have hsent : ∀ x ∈ reply.map fun bytes => (bytes, handshake.clientAddr), x.1 ∈ w.down ++ reply := by
    intro x hx
    obtain ⟨b, hb, rfl⟩ := List.mem_map.mp hx
    exact List.mem_append_right _ hb
  have hexit : Refines { p with server := .exited (reply.map fun bytes => (bytes, handshake.clientAddr)) }
      { w with
        server := (World.startSession setup handshake now : ServerPhase cr T)
        down := w.down ++ reply } := by
    refine ⟨h.client, h.handshakeSeq, h.up, fun b hb => ?_, by rintro ⟨⟩, by rintro _ ⟨⟩, by rintro _ _ _ ⟨⟩⟩
    obtain ⟨x, hx, rfl⟩ := List.mem_map.mp hb
    exact hsent x hx
  unfold ServerProgram.begin
  split
  · cases hnew : (AuthoritativeSession.new handshake.sessionId
      (ChaChaCodec.new cr setup.key handshake.sessionId) handshake.clientStartSeq handshake.clientAddr
      handshake.cols handshake.rows now : Except Error (AuthoritativeSession (ChaChaCodec cr) T)) with
    | error e => exact hexit
    | ok session =>
      refine ⟨h.client, h.handshakeSeq, h.up, fun b hb => ?_, by rintro ⟨⟩, ?_, by rintro _ _ _ ⟨⟩⟩
      · obtain ⟨x, hx, rfl⟩ := List.mem_map.mp hb
        exact hsent x hx
      · rintro n ⟨⟩
        refine ⟨?_, hsent, fun x hx => absurd hx (Option.not_mem_none x), fun e he => ?_⟩
        · simp only [World.startSession, hnew, ServerNode.start]
        · cases he
  · exact hexit

/-- A handshake ends the wait, or what arrives is passed over. -/
theorem Refines.greet {bytes : Bytes} {src : SocketAddr} {now : Instant} {ptyOpens : Bool}
    (h : Refines p w) (hcarries : p.carries setup (.greet bytes src now ptyOpens) = true)
    (hstep : p.play setup (.greet bytes src now ptyOpens) = some p') : Matched setup calm w p' := by
  unfold play at hstep
  dsimp only at hstep
  split at hstep
  · rename_i hwait
    obtain ⟨r, hr, rfl⟩ := Option.map_eq_some_iff.mp hstep
    cases r with
    | none => exact h.matched
    | some r =>
      obtain ⟨handshake, reply⟩ := r
      have hup : bytes ∈ w.up := by
        simp only [carries, Bool.or_eq_true, List.contains_iff_mem, foreign, hwait, ServerProgram.node,
          Option.isNone_iff_eq_none] at hcarries
        refine h.up bytes (hcarries.resolve_right fun hnone => ?_)
        simp only [waitForClientHandshake, hnone] at hr
        cases hr
      obtain ⟨i, hi⟩ := List.mem_iff_getElem?.mp hup
      have hserver := h.waiting hwait
      refine matched_step (.deliverUp i src now false) { w with
        server := World.startSession setup handshake now, down := w.down ++ reply } ?_ (fun _ => ?_) ?_
      · simp only [World.step, hi, World.receive, hserver, hr, Option.map_some]
      · simp only [World.displaces, hserver, hi]
        cases w.client <;> rfl
      · exact h.begin handshake reply now ptyOpens
  · cases hstep
    exact h.matched

variable {n n' : ServerNode (ChaChaCodec cr) T}

omit [TerminalState T] [LifecycleBackend B] in
theorem node_withNode {q : ServerProgram cr T} (hn : q.node = some n)
    (n' : ServerNode (ChaChaCodec cr) T) :
    (q.withNode n').node = some n' ∧ (q.withNode n').sent = n'.sent ∧ q.withNode n' ≠ .waiting ∧
      ∀ m last left, q.withNode n' = .leaving m last left → ∃ m', q = .leaving m' last left := by
  cases q with
  | waiting => cases hn
  | running m => exact ⟨rfl, rfl, by simp [ServerProgram.withNode], by simp [ServerProgram.withNode]⟩
  | leaving m last left =>
    refine ⟨rfl, rfl, by simp [ServerProgram.withNode], ?_⟩
    rintro _ _ _ ⟨⟩
    exact ⟨m, rfl⟩
  | exited sent => cases hn

omit [TerminalState T] [LifecycleBackend B] in
/-- The tasks have moved on, and so has the world. -/
theorem Refines.withNode (h : Refines p w) (hn : p.server.node = some n)
    (n' : ServerNode (ChaChaCodec cr) T) (hclient : w'.client = w.client)
    (hseq : w'.handshakeSeq = w.handshakeSeq) (hup : w'.up = w.up) (hdown : w.down ⊆ w'.down)
    (hserver : w'.server = .serving n'.session) (hwithin : Within w'.jobs w'.down n') :
    Refines { p with server := p.server.withNode n' } w' := by
  obtain ⟨hnode, hsent, hwait, hleaving⟩ := node_withNode hn n'
  refine ⟨hclient.trans h.client, hseq.trans h.handshakeSeq, fun b hb => hup ▸ h.up b hb, fun b hb => ?_,
    fun hw => absurd hw hwait, fun m hm => ?_, fun m last left hl => ?_⟩
  · rw [Programs.down, hsent] at hb
    obtain ⟨x, hx, rfl⟩ := List.mem_map.mp hb
    exact hwithin.sent x hx
  · obtain rfl := Option.some.inj (hnode.symm.trans hm)
    exact ⟨hserver, hwithin⟩
  · obtain ⟨m', hm'⟩ := hleaving m last left hl
    exact hdown (h.last m' last left hm')

omit [LifecycleBackend B] in
/-- A turn of the session, and its actions carried out. -/
theorem Refines.serve (sev : SessionEvent) {s' : AuthoritativeSession (ChaChaCodec cr) T}
    {actions : List (SessionAction (ChaChaCodec cr))} (h : Refines p w) (hn : p.server.node = some n)
    (hturn : n.session.turn sev = some (s', actions))
    (hev : ∀ bytes src now echo, sev = .packet bytes src now echo → bytes ∈ w.up)
    (hcalm : calm → (∃ l, p.client = .running l) → n.session.displaces sev = false) :
    Matched setup calm w
      { p with server := p.server.withNode ({ n with session := s' }.executeActions actions) } := by
  obtain ⟨hserver, hwithin⟩ := h.node n hn
  obtain ⟨ev, hstep, hdisplaces⟩ := exists_serve setup hserver hev
  have hserve : w.serve sev = some { w with
      server := .serving s', down := w.down ++ datagramsOf actions, jobs := w.jobs ++ jobsOf actions,
      applied := w.applied ++ n.session.applies sev } := by
    simp only [World.serve, hserver, hturn, Option.map_some]
  obtain ⟨hsession, -, -⟩ := ServerNode.executeActions_frame actions { n with session := s' }
  refine matched_step ev _ (hstep.trans hserve) (fun hc => ?_) (h.withNode hn _ rfl rfl rfl
    (List.subset_append_left _ _) (by rw [hsession]) ?_)
  · rw [← Bool.not_eq_true]
    intro htrue
    obtain ⟨⟨c, hconnected⟩, hmoves⟩ := hdisplaces htrue
    have hrunning : ∃ l, p.client = .running l := by
      rw [h.client] at hconnected
      cases hclient : p.client with
      | running l => exact ⟨l, rfl⟩
      | connecting => rw [hclient] at hconnected; cases hconnected
      | failed => rw [hclient] at hconnected; cases hconnected
    rw [hcalm hc hrunning] at hmoves
    cases hmoves
  · have hmore := hwithin.mono (List.subset_append_left w.jobs (jobsOf actions))
      (List.subset_append_left w.down (datagramsOf actions))
    exact Within.executeActions actions ⟨hmore.sent, hmore.job, hmore.cache⟩
      (fun b hb => List.mem_append_right _ hb) fun job hj => List.mem_append_right _ hj

omit [TerminalState T] [LifecycleBackend B] in
theorem session_finishJob (n : ServerNode (ChaChaCodec cr) T) : n.finishJob.session = n.session := by
  unfold ServerNode.finishJob
  split
  · rfl
  · split <;> rfl

omit [LifecycleBackend B] in
/-- A turn of a task. -/
theorem Refines.task {tev : ServerNode.Event} (h : Refines p w)
    (hcarries : p.carries setup (.task tev) = true) (hn : p.server.node = some n)
    (hstep : n.step tev = some n') :
    Matched setup (p.displaces (.task tev) = false) w { p with server := p.server.withNode n' } := by
  obtain ⟨hserver, hwithin⟩ := h.node n hn
  have hsame : Refines { p with server := p.server.withNode n } w :=
    h.withNode hn _ rfl rfl rfl (List.Subset.refl _) hserver hwithin
  cases tev with
  | ptyBytes data now =>
    cases hstep
    have hturn : n.session.turn (.ptyBytes data now) = some (n.session.onPtyBytes data now, []) := rfl
    exact h.serve (.ptyBytes data now) hn hturn (by rintro _ _ _ _ ⟨⟩) fun _ _ => rfl
  | tick now echo =>
    simp only [ServerNode.step] at hstep
    split at hstep
    · cases hstep
      exact hsame.matched
    · cases hstep
      exact h.serve (.tick now echo) hn rfl (by rintro _ _ _ _ ⟨⟩) fun _ _ => rfl
  | recv bytes src now echo =>
    simp only [carries, Bool.or_eq_true, List.contains_iff_mem, foreign, hn] at hcarries
    rcases hcarries with hup | hforeign
    · have hcalm : p.displaces (.task (.recv bytes src now echo)) = false →
          (∃ l, p.client = .running l) → n.session.displaces (.packet bytes src now echo) = false := by
        rintro hcalm ⟨l, hl⟩
        simpa only [displaces, hl, hn] using hcalm
      have hev : ∀ b src' now' echo',
          SessionEvent.packet bytes src now echo = .packet b src' now' echo' → b ∈ w.up := by
        rintro _ _ _ _ ⟨⟩
        exact h.up bytes hup
      have hturn : ∀ {s' r}, n.session.feedPacket bytes src now echo = some (s', r) →
          n.session.turn (.packet bytes src now echo) = some (s', actionsOf r) := by
        intro s' r hfeed
        rw [AuthoritativeSession.turn, hfeed]
        rfl
      simp only [ServerNode.step] at hstep
      split at hstep
      · cases hstep
      · rename_i s' actions hfeed
        cases hstep
        exact h.serve _ hn (hturn hfeed) hev hcalm
      · rename_i s' e hfeed
        cases hstep
        exact h.serve _ hn (hturn hfeed) hev hcalm
    · have hfeed : n.session.feedPacket bytes src now echo = some (n.session, .ok []) := by
        unfold AuthoritativeSession.feedPacket
        cases hopen : PacketCodec.openClient n.session.codec bytes with
        | error e => rfl
        | ok x => rw [hopen] at hforeign; cases hforeign
      simp only [ServerNode.step, hfeed] at hstep
      cases hstep
      exact hsame.matched
  | jobDone =>
    cases hstep
    cases hflight : n.diffInFlight with
    | none =>
      have hnone : n.finishJob = n := by rw [ServerNode.finishJob, hflight]
      rw [hnone]
      exact hsame.matched
    | some x =>
      obtain ⟨job, target⟩ := x
      obtain ⟨i, hi⟩ := List.mem_iff_getElem?.mp (hwithin.job _ hflight)
      refine matched_step (.runJob i) { w with
        down := w.down ++ jobDatagrams job, ran := w.ran ++ [job] } ?_ (fun _ => rfl)
        (h.withNode hn _ rfl rfl rfl (List.subset_append_left _ _) ?_ (hwithin.finishJob hflight))
      · simp only [World.step, hi]
      · rw [session_finishJob]
        exact hserver

omit [LifecycleBackend B] in
/-- The shutdown handler makes its packet once, as the world does, and sends it again. -/
theorem Refines.farewell (h : Refines p w) :
    Matched setup calm w { p with server := p.server.farewell } := by
  have hexit : ∀ n, p.server.node = some n → p.server.sent = n.sent →
      Refines { p with server := .exited n.sent } w := fun n hn hsent =>
    ⟨h.client, h.handshakeSeq, h.up, fun b hb => h.down b (by rwa [Programs.down, hsent]), by rintro ⟨⟩,
      by rintro _ ⟨⟩, by rintro _ _ _ ⟨⟩⟩
  cases hserver : p.server with
  | waiting =>
    rw [ServerProgram.farewell, ← hserver]
    exact h.matched
  | exited sent =>
    rw [ServerProgram.farewell, ← hserver]
    exact h.matched
  | running n =>
    obtain ⟨hserving, hwithin⟩ := h.node n (by rw [hserver, ServerProgram.node])
    unfold ServerProgram.farewell
    dsimp only
    split
    · split
      · rename_i session bytes target hlast
        refine matched_step .shutdown { w with
          server := .serving session, down := w.down ++ [bytes] } ?_ (fun _ => rfl) ?_
        · simp only [World.step, World.sendShutdown, hserving, hlast]
          rfl
        · have hmore := hwithin.mono (List.Subset.refl w.jobs) (List.subset_append_left w.down [bytes])
          have hsent : ∀ x ∈ n.sent ++ [(bytes, target)], x.1 ∈ w.down ++ [bytes] := by
            intro x hx
            rcases List.mem_append.mp hx with hx | hx
            · exact hmore.sent x hx
            · rw [List.mem_singleton.mp hx]
              exact List.mem_append_right _ (List.mem_singleton.mpr rfl)
          refine ⟨h.client, h.handshakeSeq, h.up, fun b hb => ?_, by rintro ⟨⟩, ?_, ?_⟩
          · obtain ⟨x, hx, rfl⟩ := List.mem_map.mp hb
            exact hsent x hx
          · rintro m ⟨⟩
            exact ⟨rfl, hsent, hmore.job, hmore.cache⟩
          · rintro m last left ⟨⟩
            exact List.mem_append_right _ (List.mem_singleton.mpr rfl)
      · exact (hexit n (by rw [hserver, ServerProgram.node]) (by rw [hserver, ServerProgram.sent])).matched
    · rw [← hserver]
      exact h.matched
  | leaving n last left =>
    obtain ⟨hserving, hwithin⟩ := h.node n (by rw [hserver, ServerProgram.node])
    have hlast := h.last n last left hserver
    cases left with
    | zero => exact (hexit n (by rw [hserver, ServerProgram.node]) (by rw [hserver, ServerProgram.sent])).matched
    | succ left =>
      have hsent : ∀ x ∈ n.sent ++ [last], x.1 ∈ w.down := by
        intro x hx
        rcases List.mem_append.mp hx with hx | hx
        · exact hwithin.sent x hx
        · rw [List.mem_singleton.mp hx]
          exact hlast
      refine Refines.matched ⟨h.client, h.handshakeSeq, h.up, fun b hb => ?_, by rintro ⟨⟩, ?_, ?_⟩
      · obtain ⟨x, hx, rfl⟩ := List.mem_map.mp hb
        exact hsent x hx
      · rintro m ⟨⟩
        exact ⟨hserving, hsent, hwithin.job, hwithin.cache⟩
      · rintro m last' left' ⟨⟩
        exact hlast

/-- STEP: the world follows every step of the programs. -/
theorem Refines.step (h : Refines p w) (hstep : p.step setup ev = some p') :
    Matched setup (p.displaces ev = false) w p' := by
  unfold Programs.step at hstep
  split at hstep
  · rename_i hcarries
    cases ev with
    | timeout =>
      simp only [play] at hstep
      split at hstep
      · rename_i hc
        cases hstep
        exact h.timeout hc
      · cases hstep
        exact h.matched
    | reply bytes backend start now => exact h.reply (List.contains_iff_mem.mp hcarries) hstep
    | turn t => exact h.turn hcarries hstep
    | greet bytes src now ptyOpens => exact h.greet hcarries hstep
    | task tev =>
      simp only [play] at hstep
      split at hstep
      · rename_i n hn
        obtain ⟨n', hn', rfl⟩ := Option.map_eq_some_iff.mp hstep
        exact h.task hcarries hn hn'
      · cases hstep
        exact h.matched
    | ptyClosed =>
      simp only [play] at hstep
      split at hstep
      · rename_i n hn
        cases hstep
        obtain ⟨hserver, hwithin⟩ := h.node n hn
        exact (h.withNode hn { n with shutdownRequested := true } rfl rfl rfl (List.Subset.refl _) hserver
          ⟨hwithin.sent, hwithin.job, hwithin.cache⟩).matched
      · cases hstep
        exact h.matched
    | farewell =>
      cases hstep
      exact h.farewell
    | terminated =>
      cases hstep
      exact Refines.matched ⟨h.client, h.handshakeSeq, h.up, h.down, by rintro ⟨⟩, by rintro _ ⟨⟩,
        by rintro _ _ _ ⟨⟩⟩
  · cases hstep
    exact h.matched

omit [TerminalState T] [LifecycleBackend B] in
theorem refines_start (setup : Setup) (serverAddr : SocketAddr) :
    Refines (start setup serverAddr : Programs B cr T) (World.start setup) := by
  refine Refines.attempt ⟨rfl, rfl, ?_, ?_, fun _ => rfl, by rintro _ ⟨⟩, by rintro _ _ _ ⟨⟩⟩ rfl
  · intro b hb
    cases hb
  · intro b hb
    cases hb

/-- A run in which each event is chosen by the state before it. -/
def script (setup : Setup) : Programs B cr T → List (Programs B cr T → ProgramEvent B) →
    List (ProgramEvent B)
  | _, [] => []
  | p, f :: fs =>
    f p :: match p.step setup (f p) with
      | some p' => script setup p' fs
      | none => []

/-- The programs on a screen of two cells. -/
abbrev TwoCells := Programs TerminalLifecycle.FakeLifecycleBackend Bincode.crates TextTerminal

/-- An `a` is typed and shown, and the shell exits: its last packet is sent twice so far. -/
def typeAndExit : List (TwoCells → ProgramEvent TerminalLifecycle.FakeLifecycleBackend) :=
  [fun p => .greet (p.up.getD 0 []) ⟨1, 1⟩ 0 true,
   fun p => .reply (p.down.getD 0 []) { size := (2, 1) } 0 0,
   fun _ => .turn { event := .stdin [0x61], now := 0, meanwhile := fun _ => ⟨0, 0⟩ },
   fun p => .task (.recv (p.up.getD 2 []) ⟨1, 1⟩ (millis 20) true),
   fun _ => .task .jobDone,
   fun p => .turn { event := .recv (p.down.getD 1 []) ⟨0, 0⟩, now := millis 40,
                    meanwhile := fun _ => ⟨0, 0⟩ },
   fun _ => .ptyClosed, fun _ => .farewell, fun _ => .farewell]

end Programs

end Rumsh.System
