import Rumsh.Protocol.Completion
import Rumsh.Server.Due
import Rumsh.Client.Reception
import Rumsh.System.Agreement

/-! One round to recover.

    Whatever was lost before: when the server's terminal shows another grid than the last frame, or the
    client is owed an ack, the next tick hands out one frame, and the packets of that frame alone bring
    the client up to date. The server's half is `Tracked`, the client's is `Ready`: the two histories
    agree, and nothing the client receives makes it panic. -/

namespace Rumsh.System
open Std Rumsh.Schemes Rumsh.Protocol Rumsh.Server Rumsh.Client

/-- The newest state in the history is the one with the client's mark, if that one was applied. -/
theorem Kept.newest {C : Type} {s : MirrorSession C} (h : Kept s) {g : GridState}
    (hmem : (s.ackSeqNum, g) ∈ s.applied) : s.stateHistory.getLast? = some (s.ackSeqNum, g) := by
  obtain ⟨pre, post, hsplit⟩ := List.append_of_mem hmem
  have hsort := h.sorted
  rw [hsplit] at hsort
  have hpost : post = [] := by
    refine List.eq_nil_iff_forall_not_mem.mpr fun e he => ?_
    have hlt := (List.pairwise_cons.mp (List.pairwise_append.mp hsort).2.1).1 e he
    have hle := h.below e (by rw [hsplit]; simp [he])
    exact absurd hle (Nat.not_le.mpr hlt)
  subst hpost
  rw [h.history, hsplit, List.drop_append_of_le_length (by simp), List.getLast?_concat]

namespace Link
variable {C T : Type} [PacketCodec C] [TerminalState T] {l l' : Link C T} {server client : C} {sid : ℕ}

/-! ### The server's side -/

/-- The turn of the server in an event. -/
def served (l : Link C T) : LinkEvent → Option SessionEvent
  | .ptyBytes data now => some (.ptyBytes data now)
  | .serverTick now echo => some (.tick now echo)
  | .deliverUp i src now echo => (l.up[i]?).map fun bytes => .packet bytes src now echo
  | _ => none

/-- The server takes a second handshake. -/
def resets (l : Link C T) (ev : LinkEvent) : Bool := (l.served ev).any l.server.resets

/-- The server processes a reliable packet in order. -/
def takesNext (l : Link C T) (ev : LinkEvent) : Bool := (l.served ev).any l.server.takesNext

theorem step_served {ev : LinkEvent} (h : l.step ev = some l') :
    (∃ sev, l.served ev = some sev ∧ l.serve sev = some l') ∨
    (l.served ev = none ∧ l'.server = l.server ∧ l'.jobs = l.jobs) := by
  have hreact : ∀ {cev}, l.react cev = some l' → l'.server = l.server ∧ l'.jobs = l.jobs := by
    intro cev hr
    obtain ⟨⟨s', out⟩, -, rfl⟩ := Option.map_eq_some_iff.mp hr
    exact ⟨rfl, rfl⟩
  cases ev with
  | ptyBytes data now => exact .inl ⟨_, rfl, h⟩
  | serverTick now echo => exact .inl ⟨_, rfl, h⟩
  | deliverUp i src now echo =>
    simp only [step] at h
    split at h
    · rename_i bytes hb
      exact .inl ⟨_, by simp [served, hb], h⟩
    · rename_i hb
      cases h
      exact .inr ⟨by simp [served, hb], rfl, rfl⟩
  | runJob i =>
    simp only [step] at h
    split at h <;> cases h <;> exact .inr ⟨rfl, rfl, rfl⟩
  | handshake seq cols rows =>
    simp only [step] at h
    split at h <;> cases h <;> exact .inr ⟨rfl, rfl, rfl⟩
  | stdin buf now => exact .inr ⟨rfl, hreact h⟩
  | winch cols rows now => exact .inr ⟨rfl, hreact h⟩
  | clientTick now => exact .inr ⟨rfl, hreact h⟩
  | paint dest => exact .inr ⟨rfl, hreact h⟩
  | deliverDown i now =>
    simp only [step] at h
    split at h
    · exact .inr ⟨rfl, hreact h⟩
    · cases h
      exact .inr ⟨rfl, rfl, rfl⟩

/-- STEP: the server stays tracked; without a new job no ack is sent, and a packet that is taken in order
    is owed one. -/
theorem tracked_step (hstable : TerminalState.Stable T) (hok : TerminalState.Compiles T)
    (h : l.server.Tracked) {ev : LinkEvent} (hreset : l.resets ev = false) (hs : l.step ev = some l') :
    l'.server.Tracked ∧ l.jobs <+: l'.jobs ∧ l.server.ackSeqNum ≤ l'.server.ackSeqNum ∧
      (l'.jobs = l.jobs → l'.server.lastSentAckSeq = l.server.lastSentAckSeq ∧
        (l.takesNext ev = true → l.server.ackSeqNum < l'.server.ackSeqNum)) := by
  rcases step_served hs with ⟨sev, hserved, hserve⟩ | ⟨hserved, hserver, hjobs⟩
  · obtain ⟨⟨s', actions⟩, ht, rfl⟩ := Option.map_eq_some_iff.mp hserve
    have hreset' : l.server.resets sev = false := by simpa [resets, hserved] using hreset
    obtain ⟨htracked, hle, hquiet⟩ := h.turn hstable hok hreset' ht
    refine ⟨htracked, List.prefix_append _ _, hle, fun hj => ?_⟩
    have hnone : jobsOf actions = [] := by simpa using hj
    refine ⟨(hquiet hnone).1, fun hnext => (hquiet hnone).2 ?_⟩
    simpa [takesNext, hserved] using hnext
  · rw [hserver, hjobs]
    exact ⟨h, List.prefix_rfl, le_rfl, fun _ => ⟨rfl, by simp [takesNext, hserved]⟩⟩

/-- RUN: as long as no job is handed out, what the client is owed grows. -/
theorem tracked_run (hstable : TerminalState.Stable T) (hok : TerminalState.Compiles T) :
    ∀ (events : List LinkEvent) {l : Link C T}, l.server.Tracked →
      StepsMeet Link.step (fun l ev => l.resets ev = false) l events →
      runFrom Link.step l events = some l' →
      l'.server.Tracked ∧ l.jobs <+: l'.jobs ∧ (l'.jobs = l.jobs →
        l'.server.lastSentAckSeq = l.server.lastSentAckSeq ∧ l.server.ackSeqNum ≤ l'.server.ackSeqNum)
  | [], l, h, _, hrun => by
      cases hrun
      exact ⟨h, List.prefix_rfl, fun _ => ⟨rfl, le_rfl⟩⟩
  | ev :: events, l, h, hone, hrun => by
      obtain ⟨t, ht, hrun⟩ := Option.bind_eq_some_iff.mp hrun
      obtain ⟨h₁, hp₁, hle₁, hq₁⟩ := tracked_step hstable hok h hone.1 ht
      obtain ⟨h₂, hp₂, hq₂⟩ := tracked_run hstable hok events h₁ (hone.2 t ht) hrun
      refine ⟨h₂, hp₁.trans hp₂, fun hj => ?_⟩
      have hmid : t.jobs = l.jobs :=
        (hp₁.eq_of_length_le (by rw [← hj]; exact hp₂.length_le)).symm
      obtain ⟨hlast, hle⟩ := hq₂ (hj.trans hmid.symm)
      exact ⟨hlast.trans (hq₁ hmid).1, hle₁.trans hle⟩

/-- In the run, the server processed a reliable packet in order and has handed out no job since. -/
def OwesAck (l₀ : Link C T) (events : List LinkEvent) (l : Link C T) : Prop :=
  ∃ pre ev post l₁, events = pre ++ ev :: post ∧ runFrom Link.step l₀ pre = some l₁ ∧
    l₁.takesNext ev = true ∧ l.jobs = l₁.jobs

theorem OwesAck.behind (hstable : TerminalState.Stable T) (hok : TerminalState.Compiles T)
    {l₀ : Link C T} {events : List LinkEvent} (h₀ : l₀.server.Tracked)
    (hone : StepsMeet Link.step (fun l ev => l.resets ev = false) l₀ events)
    (hrun : runFrom Link.step l₀ events = some l) (h : OwesAck l₀ events l) :
    l.server.lastSentAckSeq < l.server.ackSeqNum := by
  obtain ⟨pre, ev, post, l₁, rfl, hpre, hnext, hjobs⟩ := h
  rw [runFrom_append, hpre, Option.bind_some] at hrun
  obtain ⟨l₂, h₂, hpost⟩ := Option.bind_eq_some_iff.mp hrun
  have hmeet := hone.right_of_append hpre
  have hmeet₀ : StepsMeet Link.step (fun l ev => l.resets ev = false) l₀ pre := hone.left_of_append
  obtain ⟨ht₁, -, -⟩ := tracked_run hstable hok pre h₀ hmeet₀ hpre
  obtain ⟨ht₂, hp₂, hle₂, hq₂⟩ := tracked_step hstable hok ht₁ hmeet.1 h₂
  obtain ⟨-, hp, hq⟩ := tracked_run hstable hok post ht₂ (hmeet.2 l₂ h₂) hpost
  have hmid : l₂.jobs = l₁.jobs :=
    (hp₂.eq_of_length_le (by rw [← hjobs]; exact hp.length_le)).symm
  obtain ⟨hlast, hlt⟩ := hq₂ hmid
  obtain ⟨hlast', hle'⟩ := hq (hjobs.trans hmid.symm)
  calc l.server.lastSentAckSeq = l₁.server.lastSentAckSeq := hlast'.trans hlast
    _ ≤ l₁.server.ackSeqNum := ht₁.sent
    _ < l₂.server.ackSeqNum := hlt hnext
    _ ≤ l.server.ackSeqNum := hle'

/-! ### The client's side -/

/-- The two sides agree, and the client can receive. -/
structure Ready (server client : C) (sid : ℕ) (l : Link C T) : Prop where
  agrees : Agrees server client sid l
  pending : ClientTerminal.Pending l.client.seqNum l.client.mirror
  banner : l.client.isReconnecting = false ∨ 0 < l.client.mirror.frame.rows

omit [TerminalState T] in
/-- STEP: a datagram of the server is received. -/
theorem Ready.receive (hrt : PacketCodec.RoundTrips sid server client) (h : Ready server client sid l)
    {bytes : Bytes} (hb : bytes ∈ l.down) (now : Instant) :
    ∃ l', Ready server client sid l' ∧ l'.server = l.server ∧ l'.down = l.down ∧
      l.client.step (.recv bytes now) = some l'.client ∧
      l'.client.codec = (PacketCodec.openServer l.client.codec bytes).1 ∧
      l.client.ackSeqNum ≤ l'.client.ackSeqNum ∧
      ∀ packet payload stats, (PacketCodec.openServer l.client.codec bytes).2 =
        .ok (some (packet, payload, stats)) → packet.seqNum ≤ l'.client.ackSeqNum := by
  obtain ⟨s', r, hf, hbanner⟩ := MirrorSession.feedPacket_total (s := l.client)
    ⟨h.pending.sized, h.banner⟩ bytes now fun packet update stats hopen hlt => by
      have harr : l.client.arrival (.recv bytes now) = some (packet.seqNum, .frame update) := by
        simp [MirrorSession.arrival, hopen]
      obtain ⟨g, hg, -⟩ := h.agrees.accepted_frame hrt hb harr hlt
      rw [hg]
      exact Option.some_ne_none g
  have hturn : l.client.turn (.recv bytes now) = some (s', outOf r) := by
    simp [MirrorSession.turn, MirrorSession.react, hf]
  have hstep : l.client.step (.recv bytes now) = some s' := by simp [MirrorSession.step, hturn]
  have hreact : l.react (.recv bytes now) =
      some { l with client := s', up := l.up ++ outOf r } := by simp [react, hturn]
  refine ⟨_, ⟨h.agrees.react hrt ?_ hreact, h.pending.moves (MirrorSession.step_moves hstep), hbanner⟩,
    rfl, rfl, hstep, ?_, ?_⟩
  · rintro _ _ ⟨⟩
    exact hb
  · obtain ⟨u, hu, hsent⟩ := MirrorSession.feedPacket_sent hf
    exact hsent.codec.trans hu.codec
  · have harr : ∀ packet payload stats, (PacketCodec.openServer l.client.codec bytes).2 =
        .ok (some (packet, payload, stats)) →
        l.client.arrival (.recv bytes now) = some (packet.seqNum, payload) := by
      intro packet payload stats hopen
      simp [MirrorSession.arrival, hopen]
    rcases MirrorSession.step_cases hstep with ⟨hack, -, -, hold⟩ | ⟨q, p, hq, hlt, hack, -⟩
    · exact ⟨hack.ge, fun packet payload stats hopen =>
        (hold _ _ (harr packet payload stats hopen)).trans hack.ge⟩
    · refine ⟨hack ▸ hlt.le, fun packet payload stats hopen => ?_⟩
      have heq := hq.symm.trans (harr packet payload stats hopen)
      simp only [Option.some.injEq, Prod.mk.injEq] at heq
      exact (heq.1.symm.trans hack.symm).le

/-- The client's events for a sequence of deliveries. -/
def receptions (deliveries : List (Bytes × Instant)) : List MirrorEvent :=
  deliveries.map fun d => .recv d.1 d.2

omit [TerminalState T] in
/-- RUN: any number of them. -/
theorem Ready.receiveAll (hrt : PacketCodec.RoundTrips sid server client) :
    ∀ (deliveries : List (Bytes × Instant)) {l : Link C T}, Ready server client sid l →
      (∀ d ∈ deliveries, d.1 ∈ l.down) →
      ∃ l', Ready server client sid l' ∧ l'.server = l.server ∧ l'.down = l.down ∧
        runFrom MirrorSession.step l.client (receptions deliveries) = some l'.client ∧
        l'.client.codec = PacketCodec.fed l.client.codec (deliveries.map Prod.fst) ∧
        l.client.ackSeqNum ≤ l'.client.ackSeqNum
  | [], l, h, _ => ⟨l, h, rfl, rfl, rfl, rfl, le_rfl⟩
  | d :: deliveries, l, h, hd => by
      obtain ⟨t, ht, hserver, hdown, hstep, hcodec, hack, -⟩ :=
        h.receive hrt (hd d (List.mem_cons_self ..)) d.2
      obtain ⟨l', hl', hserver', hdown', hrun, hcodec', hack'⟩ := Ready.receiveAll hrt deliveries ht
        fun e he => by rw [hdown]; exact hd e (List.mem_cons_of_mem _ he)
      refine ⟨l', hl', hserver'.trans hserver, hdown'.trans hdown, ?_, ?_, hack.trans hack'⟩
      · show (l.client.step (.recv d.1 d.2)).bind _ = _
        rw [hstep]
        exact hrun
      · rw [hcodec', hcodec]
        rfl

/-! ### The round -/

/-- RUN: the mirror's batches are in order on every link. -/
theorem pending_step (h : ClientTerminal.Pending l.client.seqNum l.client.mirror) {ev : LinkEvent}
    (hs : l.step ev = some l') : ClientTerminal.Pending l'.client.seqNum l'.client.mirror := by
  rcases step_cases hs with rfl | ⟨sev, hs, -⟩ | ⟨job, -, rfl⟩ | ⟨_, _, _, _, -, rfl⟩ | ⟨cev, hs, -⟩
  · exact h
  · obtain ⟨⟨s', actions⟩, -, rfl⟩ := Option.map_eq_some_iff.mp hs
    exact h
  · exact h
  · exact h
  · obtain ⟨⟨s', out⟩, ht, rfl⟩ := Option.map_eq_some_iff.mp hs
    have hstep : l.client.step cev = some s' := by simp [MirrorSession.step, ht]
    exact h.moves (MirrorSession.step_moves hstep)

omit [TerminalState T] in
/-- Every number the server has sealed under is one it has taken. -/
theorem Agrees.ledger_le (h : Agrees server client sid l) {seq ack : ℕ} {payload : ServerPayload}
    (hl : l.Ledger seq ack payload) : seq ≤ l.server.seqNum := by
  rcases hl with hl | ⟨job, hj, -, rfl, -⟩
  · exact (h.recorded.range seq (List.mem_append_left _ (List.mem_map_of_mem (f := Prod.fst) hl))).2
  · have hmem : (job.seq, job.currentState) ∈ l.server.pushed := by
      rw [h.pushed]
      exact List.mem_map_of_mem hj
    exact (h.recorded.range_pushed hmem).2

omit [TerminalState T] in
/-- All jobs run once more. -/
theorem Agrees.runJobs : ∀ (jobs : List (UpdateJob C)) {l : Link C T}, Agrees server client sid l →
    (∀ job ∈ jobs, job ∈ l.jobs) →
    Agrees server client sid { l with down := l.down ++ jobs.flatMap jobDatagrams }
  | [], l, h, _ => by simpa using h
  | job :: jobs, l, h, hsub => by
      have hfirst := h.runJob (hsub job (List.mem_cons_self ..))
      have hrest := Agrees.runJobs jobs hfirst fun j hj => hsub j (List.mem_cons_of_mem _ hj)
      simpa [List.append_assoc] using hrest

omit [TerminalState T] in
/-- DELIVERY: on a link that is ready, the datagrams of the newest frame, among others of the server, make
    it the client's newest state. -/
theorem Ready.delivers (hrt : PacketCodec.RoundTrips sid server client)
    (hdel : PacketCodec.Delivers server client) (h : Ready server client sid l) {job : UpdateJob C}
    (hj : job ∈ l.jobs) (hseq : job.seq = l.server.seqNum)
    (hbefore : ∃ before, l.client.codec = PacketCodec.fed client before ∧ ∀ x ∈ before,
      ∃ q < job.seq, ∃ ack payload datagrams, l.Ledger q ack payload ∧
        PacketCodec.sealServer server q ack payload = .ok datagrams ∧ x ∈ datagrams)
    {datagrams : List Bytes} (hrun : job.run = some (.ok datagrams))
    {deliveries : List (Bytes × Instant)} (hsent : ∀ d ∈ deliveries, d.1 ∈ l.down)
    (hall : ∀ b ∈ datagrams, b ∈ deliveries.map Prod.fst) :
    ∃ c, runFrom MirrorSession.step l.client (receptions deliveries) = some c ∧
      c.stateHistory.getLast? = some (job.seq, job.currentState) := by
  obtain ⟨update, hdiff, hseal⟩ := Option.map_eq_some_iff.mp hrun
  rw [(h.agrees.jobs job hj).codec] at hseal
  have hledger : l.Ledger job.seq job.ackSeq (.frame update) := .inr ⟨job, hj, update, rfl, rfl, hdiff, rfl⟩
  obtain ⟨fam, hfam, -⟩ := h.agrees.exists_family (0, .keepAlive)
  obtain ⟨before, hcodec, hold⟩ := hbefore
  -- some arrival returns the frame
  obtain ⟨pre, x, post, packet, stats, hsplit, hopen, hnum⟩ := hdel fam job.seq before
    (deliveries.map Prod.fst) datagrams
    (fun x hx => by
      obtain ⟨q, hq, ack, payload, ds, hl, hs, hx⟩ := hold x hx
      exact ⟨q, hq, ds, by rw [hfam q ack payload hl]; exact hs, hx⟩)
    (fun x hx => by
      obtain ⟨d, hd, rfl⟩ := List.mem_map.mp hx
      obtain ⟨q, ack, payload, ds, hl, hs, hx⟩ := h.agrees.down d.1 (hsent d hd)
      exact ⟨q, hseq ▸ h.agrees.ledger_le hl, ds, by rw [hfam q ack payload hl]; exact hs, hx⟩)
    (by rw [hfam _ _ _ hledger]; exact hseal) hall
  obtain ⟨dpre, drest, rfl, rfl, hrest⟩ := List.map_eq_append_iff.mp hsplit
  obtain ⟨d, dpost, rfl, rfl, rfl⟩ := List.map_eq_cons_iff.mp hrest
  -- up to that arrival, the arrival, and what follows
  obtain ⟨l₁, h₁, hserver₁, hdown₁, hrun₁, hcodec₁, -⟩ := h.receiveAll hrt dpre
    fun e he => hsent e (List.mem_append_left _ he)
  obtain ⟨l₂, h₂, hserver₂, hdown₂, hstep, -, -, hmark⟩ := h₁.receive hrt
    (by rw [hdown₁]; exact hsent d (by simp)) d.2
  obtain ⟨l₃, h₃, hserver₃, -, hrun₃, -, hle⟩ := h₂.receiveAll hrt dpost
    fun e he => by rw [hdown₂, hdown₁]; exact hsent e (by simp [he])
  have hfed : l₁.client.codec = PacketCodec.fed client (before ++ dpre.map Prod.fst) := by
    rw [hcodec₁, hcodec, PacketCodec.fed, PacketCodec.fed, PacketCodec.fed, List.foldl_append]
  have hack : l₃.client.ackSeqNum = job.seq := by
    refine Nat.le_antisymm ?_ ?_
    · rw [hseq, ← hserver₁, ← hserver₂, ← hserver₃]
      exact h₃.agrees.ack.1
    · rw [← hnum]
      exact (hmark packet _ stats (by rw [hfed]; exact hopen)).trans hle
  refine ⟨l₃.client, ?_, ?_⟩
  · rw [receptions, List.map_append, runFrom_append]
    show (runFrom MirrorSession.step l.client (receptions dpre)).bind _ = _
    rw [hrun₁, Option.bind_some, List.map_cons, runFrom_cons, hstep]
    exact hrun₃
  · have hpushed : (l₃.client.ackSeqNum, job.currentState) ∈ l₃.server.pushed := by
      rw [hack, hserver₃, hserver₂, hserver₁, h.agrees.pushed]
      exact List.mem_map_of_mem hj
    rw [h₃.agrees.kept.newest (h₃.agrees.ack.2 _ hpushed), hack]

/-- RECOVERY: on every link reached without a second handshake, when the terminal shows another grid than
    the last one pushed or an ack is owed, a tick 150 ms after the last frame hands out one job, for the
    grid the terminal shows. If then no reconnection banner lies over a mirror without rows, the job's
    datagrams, received in any order among others of the server up to that job, are all read, and the
    client's newest state is that grid. -/
theorem one_round_recovery (hrt : PacketCodec.RoundTrips sid server client)
    (hdel : PacketCodec.Delivers server client) (hterm : GridsWellFormed T)
    (hok : TerminalState.Compiles T) (hstable : TerminalState.Stable T) {c : ℕ} (hc : 1 ≤ c)
    {addr : SocketAddr} {cols rows : ℕ} {now : Instant} {s : AuthoritativeSession C T}
    (hnew : AuthoritativeSession.new sid server c addr cols rows now = .ok s)
    (startServerSeq cols' rows' : ℕ) (overlay : Bool) (now' : Instant) {events : List LinkEvent}
    (hrun : runFrom Link.step
      (start s (MirrorSession.new sid client startServerSeq cols' rows' overlay now')) events = some l)
    (hone : StepsMeet Link.step (fun l ev => l.resets ev = false)
      (start s (MirrorSession.new sid client startServerSeq cols' rows' overlay now')) events)
    {g : GridState} (hg : (TerminalState.updateAndGetState l.server.termState).2 = .ok g)
    (hdue : l.server.pushed.getLast?.map Prod.snd ≠ some g ∨ OwesAck
      (start s (MirrorSession.new sid client startServerSeq cols' rows' overlay now')) events l)
    {t : Instant} (ht : l.server.lastSyncTime + millis 150 ≤ t) (echo : Bool) :
    ∃ job target l₁, l.server.onTick t echo = (l₁.server, [.offloadDiffJob job target]) ∧
      job.currentState = g ∧ l.step (.serverTick t echo) = some l₁ ∧
      (∃ update, job.run = some (PacketCodec.sealServer server job.seq job.ackSeq (.frame update))) ∧
      (l.client.isReconnecting = false ∨ 0 < l.client.mirror.frame.rows →
        ∀ datagrams, job.run = some (.ok datagrams) → ∀ deliveries : List (Bytes × Instant),
          (∀ d ∈ deliveries, d.1 ∈ l₁.down ∨ ∃ j ∈ l₁.jobs, d.1 ∈ jobDatagrams j) →
          (∀ b ∈ datagrams, b ∈ deliveries.map Prod.fst) →
          ∃ client', runFrom MirrorSession.step l.client (receptions deliveries) = some client' ∧
            client'.stateHistory.getLast? = some (job.seq, g)) := by
  have hagrees : Agrees server client sid l := run_invariant_all (fun _ _ _ h => h.step hrt hterm)
    (agrees_start hnew startServerSeq cols' rows' overlay now') hrun
  have hpending : ClientTerminal.Pending l.client.seqNum l.client.mirror :=
    run_invariant_all (fun _ _ _ h => pending_step h) (MirrorSession.pending_new ..) hrun
  have htracked := (tracked_run hstable hok events (AuthoritativeSession.tracked_new hc hnew) hone hrun).1
  have hdue' : l.server.pushed.getLast?.map Prod.snd ≠ some g ∨
      l.server.lastSentAckSeq < l.server.ackSeqNum :=
    hdue.imp_right (OwesAck.behind hstable hok (AuthoritativeSession.tracked_new hc hnew) hone hrun)
  obtain ⟨job, htick, hgrid⟩ := htracked.onTick_due hg hdue' ht echo
  have hturn : l.server.turn (.tick t echo) = some ((l.server.onTick t echo).1,
      [.offloadDiffJob job l.server.currentClientAddr]) := by
    rw [← htick]
    rfl
  have hserve : l.serve (.tick t echo) = some { l with
      server := (l.server.onTick t echo).1, down := l.down, jobs := l.jobs ++ [job] } := by
    rw [serve, hturn]
    simp [datagramsOf, jobsOf]
  obtain ⟨s₀, ha, he⟩ := AuthoritativeSession.turn_emits hturn
  have hjob := he.jobs job (by simp [jobsOf])
  have hnext := hagrees.serve hrt hterm (by rintro _ _ _ _ ⟨⟩) hserve
  have hfits := hnext.jobs job (by simp)
  have hmem : (job.seq, job.currentState) ∈ (l.server.onTick t echo).1.pushed := by
    rw [hnext.pushed]
    exact List.mem_map_of_mem (by simp)
  obtain ⟨hwf, hsize⟩ := hnext.recorded.grids _ hmem
  refine ⟨job, _, _, Prod.ext rfl htick, hgrid, hserve, ?_, fun hbanner datagrams hds deliveries hsent
    hall => ?_⟩
  · rw [← hfits.codec]
    refine ⟨_, congrArg (Option.map _) (GridState.diffFrom_eq hwf (fun r hr => ?_) hsize _ _)⟩
    exact (hnext.recorded.grids _ (hnext.applied _ (hfits.delta r hr).1)).1
  · rw [← hgrid]
    obtain ⟨calls, hcalls, -, hrange, -⟩ := he.calls
    have hlt : l.server.seqNum < job.seq := by
      rw [← ha.seqNum]
      exact (hrange job.seq (by simp [jobsOf])).1
    obtain ⟨before, hdown, hcodec⟩ := hagrees.clientCodec
    -- every job has been run, so whatever the server can have sent is on its way
    have hready : Ready server client sid { l with
        server := (l.server.onTick t echo).1
        down := l.down ++ (l.jobs ++ [job]).flatMap jobDatagrams
        jobs := l.jobs ++ [job] } :=
      ⟨Agrees.runJobs _ hnext fun _ h => h, hpending, hbanner⟩
    refine hready.delivers hrt hdel (by simp) hjob.seq ⟨before, hcodec, fun x hx => ?_⟩ hds
      (fun d hd => ?_) hall
    · obtain ⟨q, ack, payload, ds, hl, hseal, hx⟩ := hagrees.down x (hdown x hx)
      refine ⟨q, (hagrees.ledger_le hl).trans_lt hlt, ack, payload, ds, ?_, hseal, hx⟩
      rcases hl with hl | ⟨j, hj, hl⟩
      · refine .inl ?_
        rw [hcalls, ha.sealedCalls]
        exact List.mem_append_left _ hl
      · exact .inr ⟨j, List.mem_append_left _ hj, hl⟩
    · rcases hsent d hd with hd | ⟨j, hj, hd⟩
      · exact List.mem_append_left _ hd
      · exact List.mem_append_right _ (List.mem_flatMap.mpr ⟨j, hj, hd⟩)

/-! ### Runs -/

theorem compiles_textTerminal : TerminalState.Compiles TextTerminal := fun t => ⟨t, t.grid, rfl⟩

abbrev SmallCodec := ChaChaCodec Bincode.crates

def zeroCodec : SmallCodec := ChaChaCodec.new Bincode.crates (Vector.replicate 32 0) 7

/-- A server with a 2 by 1 screen and a client whose mirror has this many rows. -/
def smallLink (s : AuthoritativeSession SmallCodec TextTerminal) (rows : ℕ) :
    Link SmallCodec TextTerminal :=
  start s (MirrorSession.new 7 zeroCodec 1 2 rows false 0)

/-- The first frame is lost, the screen changes, and the next tick's frame alone catches up. -/
theorem one_round_recovery_lost_frame :
    ∃ (s : AuthoritativeSession SmallCodec TextTerminal) (l : Link SmallCodec TextTerminal)
      (job : UpdateJob SmallCodec) (client' : MirrorSession SmallCodec) (datagrams : List Bytes),
      AuthoritativeSession.new 7 zeroCodec 1 ⟨0, 0⟩ 2 1 0 = .ok s ∧
      runFrom Link.step (smallLink s 1)
        [.serverTick 0 true, .runJob 0, .ptyBytes [0x78] (millis 60)] = some l ∧
      l.client.stateHistory = [] ∧ job.run = some (.ok datagrams) ∧
      runFrom MirrorSession.step l.client
        (receptions (datagrams.map fun b => (b, millis 200))) = some client' ∧
      client'.stateHistory.getLast? = some (job.seq, l.server.termState.grid) := by
  obtain ⟨s, l, hs, hl, hone, hdue, hhist, htime, hflag, hseals⟩ :
    ∃ (s : AuthoritativeSession SmallCodec TextTerminal) (l : Link SmallCodec TextTerminal),
      AuthoritativeSession.new 7 zeroCodec 1 ⟨0, 0⟩ 2 1 0 = .ok s ∧
      runFrom Link.step (smallLink s 1)
        [.serverTick 0 true, .runJob 0, .ptyBytes [0x78] (millis 60)] = some l ∧
      StepsMeet Link.step (fun l ev => l.resets ev = false) (smallLink s 1)
        [.serverTick 0 true, .runJob 0, .ptyBytes [0x78] (millis 60)] ∧
      l.server.pushed.getLast?.map Prod.snd ≠ some l.server.termState.grid ∧
      l.client.stateHistory = [] ∧ l.server.lastSyncTime + millis 150 ≤ millis 150 ∧
      l.client.isReconnecting = false ∧
      ∀ job ∈ jobsOf (l.server.onTick (millis 150) true).2, ∃ datagrams, job.run = some (.ok datagrams) :=
    ⟨_, _, rfl, rfl, by decide +kernel, by decide +kernel, rfl, by decide, rfl, by
      intro job hjob
      rw [List.mem_singleton.mp hjob]
      exact ⟨_, rfl⟩⟩
  have hfit : ∀ seq ack payload datagrams, zeroCodec.sealServer seq ack payload = .ok datagrams →
      datagrams.length ≤ 65535 := fun _ _ _ _ => length_sealServer_crates _
  obtain ⟨job, target, l₁, htick, -, hstep, -, hdeliver⟩ := one_round_recovery
    (ChaChaCodec.roundTrips Bincode.crates_lawful (Vector.replicate 32 0) 7 hfit)
    (ChaChaCodec.delivers Bincode.crates_lawful (Vector.replicate 32 0) 7 hfit)
    textTerminal_wellFormed compiles_textTerminal ServerNode.stable_textTerminal le_rfl hs 1 2 1 false
    0 hl hone rfl (.inl hdue) htime true
  obtain ⟨datagrams, hrun⟩ := hseals job (by simp [htick, jobsOf])
  have hjob : job ∈ l₁.jobs := by
    have hturn : l.server.turn (.tick (millis 150) true) =
      some (l₁.server, [.offloadDiffJob job target]) := congrArg some htick
    have hserve : l.serve (.tick (millis 150) true) = some l₁ := hstep
    rw [serve, hturn] at hserve
    rw [← Option.some.inj hserve]
    simp [jobsOf]
  obtain ⟨client', hclient, hnewest⟩ := hdeliver (.inl hflag) datagrams hrun
    (datagrams.map fun b => (b, millis 200)) (fun d hd => .inr ⟨job, hjob, by
      obtain ⟨b, hb, rfl⟩ := List.mem_map.mp hd
      simpa [jobDatagrams, hrun] using hb⟩) (by simp)
  exact ⟨s, l, job, client', datagrams, hs, hl, hhist, hrun, hclient, hnewest⟩

/-- A mirror without rows shows the banner after 6 s of silence. The next tick of the server hands out a
    frame, and its one datagram makes the client panic: `set_reconnecting` marks row 0 of no rows. -/
theorem banner_without_rows_panics :
    ∃ (s : AuthoritativeSession SmallCodec TextTerminal) (l : Link SmallCodec TextTerminal)
      (job : UpdateJob SmallCodec) (target : SocketAddr) (bytes : Bytes),
      AuthoritativeSession.new 7 zeroCodec 1 ⟨0, 0⟩ 2 1 0 = .ok s ∧
      runFrom Link.step (smallLink s 0) [.clientTick (secs 6)] = some l ∧
      StepsMeet Link.step (fun l ev => l.resets ev = false) (smallLink s 0) [.clientTick (secs 6)] ∧
      l.server.pushed.getLast?.map Prod.snd ≠ some l.server.termState.grid ∧
      l.server.lastSyncTime + millis 150 ≤ secs 6 ∧
      (l.server.onTick (secs 6) true).2 = [.offloadDiffJob job target] ∧
      job.currentState = l.server.termState.grid ∧ job.run = some (.ok [bytes]) ∧
      runFrom MirrorSession.step l.client (receptions [(bytes, secs 6)]) = none := by
  exact ⟨_, _, _, _, _, rfl, rfl, by decide +kernel, by decide +kernel, by decide, rfl, rfl, rfl, rfl⟩

end Link

end Rumsh.System
