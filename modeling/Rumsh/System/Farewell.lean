import Rumsh.System.Agreement

/-! The end of a session.

    When the PTY has exited, `run_server` seals one `Shutdown` and sends it three times, while its other
    tasks go on until it returns. `FarewellEvent` adds that step to a link. The client leaves on a
    datagram only if the server has said farewell, and it leaves on the first copy that arrives as long as
    the server numbers nothing after it. -/

namespace Rumsh.System
open Rumsh.Schemes Rumsh.Protocol Rumsh.Server Rumsh.Client

/-- The PTY can exit at any point of a link's run. -/
inductive FarewellEvent where
  | link (ev : LinkEvent)
  | shutdown

/-! ### Leaving -/

section Leaving
variable {C : Type} [PacketCodec C] {c c' : MirrorSession C} {bytes : Bytes} {now : Instant}
  {r : Except Error (List ClientAction)}

/-- The client is told to leave. -/
def leaves (r : Except Error (List ClientAction)) : Bool :=
  match r with
  | .ok actions => actions.contains .disconnect
  | .error _ => false

theorem leaves_sendAck (c : MirrorSession C) (now : Instant) : .disconnect ∉ (c.sendAck now).2 := by
  unfold MirrorSession.sendAck
  split <;> simp

theorem leaves_ackIfDue (c : MirrorSession C) (now : Instant) : .disconnect ∉ (c.ackIfDue now).2 := by
  unfold MirrorSession.ackIfDue
  split
  · exact leaves_sendAck c now
  · simp

/-- Of the payloads, only `Shutdown` makes the client leave. -/
theorem leaves_feedPayload {seq : ℕ} {payload : ServerPayload}
    (h : c.feedPayload seq payload now = some (c', r)) : leaves r = decide (payload = .shutdown) := by
  cases payload with
  | frame update =>
    simp only [MirrorSession.feedPayload, MirrorSession.feedFrame] at h
    simp only [reduceCtorEq, decide_false]
    split at h
    · cases h
      simpa [leaves] using leaves_sendAck c now
    · split at h
      · cases h
      · cases h
        rfl
      · obtain ⟨s, -, heq⟩ := Option.map_eq_some_iff.mp h
        cases heq
        simpa [leaves] using leaves_ackIfDue s now
  | keepAlive => cases h; rfl
  | shutdown => cases h; rfl
  | handshakeAck sid => cases h; rfl

/-- INVERSION: a datagram makes the client leave exactly if it completes a `Shutdown` above the client's
    mark, which is then the mark. -/
theorem leaves_feedPacket (h : c.feedPacket bytes now = some (c', r)) :
    leaves r = true ↔ ∃ q, c.arrival (.recv bytes now) = some (q, .shutdown) ∧ c.ackSeqNum < q := by
  rcases MirrorSession.feedPacket_inv h with ⟨hnone, -, rfl⟩ | ⟨packet, payload, stats, t, hopen, -, hcase⟩
  · have harr : c.arrival (.recv bytes now) = none := by
      simp only [MirrorSession.arrival]
      split
      · rename_i packet payload stats hopen
        exact absurd hopen (hnone _)
      · rfl
    simp [harr, leaves]
  · have harr : c.arrival (.recv bytes now) = some (packet.seqNum, payload) := by
      simp [MirrorSession.arrival, hopen]
    rcases hcase with ⟨hle, -, rfl⟩ | ⟨hlt, u, -, hp⟩
    · simp only [harr, leaves, Option.some.injEq, Prod.mk.injEq]
      constructor
      · simp
      · rintro ⟨q, ⟨rfl, -⟩, hlt⟩
        omega
    · rw [leaves_feedPayload hp, harr]
      simp only [decide_eq_true_eq, Option.some.injEq, Prod.mk.injEq]
      constructor
      · rintro rfl
        exact ⟨_, ⟨rfl, rfl⟩, hlt⟩
      · rintro ⟨q, ⟨-, rfl⟩, -⟩
        rfl

end Leaving

/-! ### The server's own packets -/

section Farewells
variable {C T : Type} [PacketCodec C] [TerminalState T] {s s' : AuthoritativeSession C T}

/-- The farewells of a session. -/
def farewells (s : AuthoritativeSession C T) : List (ℕ × ℕ × ServerPayload) :=
  s.sealedCalls.filter fun x => x.2.2 = .shutdown

omit [TerminalState T] in
theorem farewells_sealNext (s : AuthoritativeSession C T) (ack : ℕ) {payload : ServerPayload}
    (hp : payload ≠ .shutdown) : farewells (s.sealNext ack payload).1 = farewells s := by
  simp [farewells, AuthoritativeSession.sealNext, hp]

omit [PacketCodec C] in
theorem farewells_checkSync (s : AuthoritativeSession C T) (now : Instant) (echo : Bool) :
    farewells (s.checkSync now echo).1 = farewells s := by
  obtain ⟨_, hcalm⟩ := AuthoritativeSession.calmed_frame s now
  rcases AuthoritativeSession.checkSync_cases s now echo with
    hs | ⟨-, hs⟩ | ⟨-, t, ⟨e, -, hs⟩ | ⟨g, -, ⟨-, -, hs⟩ | hs⟩⟩ <;> rw [hs]
  all_goals rw [hcalm]; rfl

theorem farewells_process {payload : ClientPayload} {r : Except Error (List (SessionAction C))}
    (h : s.process payload = some (s', r)) : farewells s' = farewells s := by
  rcases AuthoritativeSession.process_inv h with ⟨res, heq, -⟩ | ⟨pty, t, dirty, rfl, -⟩
  · have hfst : _ = s' := congrArg Prod.fst heq
    rw [← hfst]
    exact farewells_sealNext s _ (by simp)
  · rfl

theorem farewells_processAll {packets : List (ℕ × ClientPayload)} {actions : List (SessionAction C)}
    {r : Except Error (List (SessionAction C))}
    (h : AuthoritativeSession.processAll packets s actions = some (s', r)) : farewells s' = farewells s :=
  AuthoritativeSession.processAll_induct (R := fun s s' => farewells s' = farewells s) (fun _ => rfl)
    (fun _ _ _ h h' => h'.trans h) (fun _ _ _ _ => farewells_process) h

/-- STEP: no turn of the session says farewell. -/
theorem farewells_turn {ev : SessionEvent} {actions : List (SessionAction C)}
    (h : s.turn ev = some (s', actions)) : farewells s' = farewells s := by
  cases ev with
  | ptyBytes data now => cases h; rfl
  | tick now echo =>
    have hfst : _ = s' := congrArg Prod.fst (Option.some.inj h)
    rw [← hfst]
    exact farewells_checkSync s now echo
  | packet bytes src now echo =>
    obtain ⟨⟨t, r⟩, ht, heq⟩ := Option.map_eq_some_iff.mp h
    obtain ⟨rfl, -⟩ := Prod.mk.inj heq
    rcases AuthoritativeSession.feedPacket_cases ht with
      ⟨rfl, -⟩ | ⟨w, p, st, -, ⟨-, hs⟩ | ⟨-, -, ⟨-, hx⟩ | ⟨-, ⟨-, rfl, -⟩ | ⟨-, -, rfl⟩ | ⟨-, ho⟩⟩⟩⟩
    · rfl
    · have hack : ServerPayload.handshakeAck s.sessionId ≠ .shutdown := nofun
      have hseal := farewells_sealNext (s.resetFor w.seqNum src now) w.seqNum hack
      rcases AuthoritativeSession.feedHandshake_cases hs with
        ⟨-, rfl, -⟩ | ⟨-, u, rfl, ⟨e, -, rfl, -⟩ | ⟨ds, -, rfl, -⟩⟩
      · rfl
      · exact hseal
      · exact (farewells_checkSync _ now echo).trans hseal
    · have hfst : _ = t := congrArg Prod.fst hx
      rw [← hfst]
      exact farewells_checkSync _ now echo
    · rfl
    · rfl
    · rcases AuthoritativeSession.feedInOrder_cases ho with ⟨e, hp, -⟩ | ⟨u, acts, hp, rfl, -⟩
      · have hall := farewells_processAll hp
        exact hall
      · have hall := farewells_processAll hp
        exact (farewells_checkSync u now echo).trans hall

end Farewells

namespace Link
variable {cr : Crates} {T : Type} [TerminalState T] {key : Key} {sid : ℕ}
  {l l' : Link (ChaChaCodec cr) T}

/-- `prepare_shutdown`, and its datagram on its way. -/
def sendShutdown (l : Link (ChaChaCodec cr) T) : Link (ChaChaCodec cr) T :=
  let last := l.server.prepareShutdown
  { l with
    server := last.1
    down := l.down ++ datagramsOf (actionsOf (last.2.map fun action => [action])) }

def play (l : Link (ChaChaCodec cr) T) : FarewellEvent → Option (Link (ChaChaCodec cr) T)
  | .link ev => l.step ev
  | .shutdown => some l.sendShutdown

omit [TerminalState T] in
theorem sendShutdown_server (l : Link (ChaChaCodec cr) T) :
    l.sendShutdown.server =
      { l.server with
        seqNum := l.server.seqNum + 1
        sealedCalls := l.server.sealedCalls ++ [(l.server.seqNum + 1, 0, .shutdown)] } := by
  simp [sendShutdown, AuthoritativeSession.prepareShutdown, AuthoritativeSession.sealNext]

omit [TerminalState T] in
/-- The datagram of a farewell is the last one of a sealed `Shutdown`. -/
theorem mem_sendShutdown {b : Bytes} (hb : b ∈ l.sendShutdown.down) :
    b ∈ l.down ∨
      ∃ ds, l.server.codec.sealServer (l.server.seqNum + 1) 0 .shutdown = .ok ds ∧ ds.getLast? = some b := by
  rcases List.mem_append.mp hb with hb | hb
  · exact .inl hb
  · exact .inr (mem_prepareShutdown hb)

omit [TerminalState T] in
/-- The farewell takes the next number. -/
theorem recorded_sendShutdown (h : Recorded l.server) : Recorded l.sendShutdown.server := by
  have hnew : l.server.seqNum + 1 ∉ takenNumbers l.server :=
    fun hmem => Nat.not_succ_le_self _ (h.range _ hmem).2
  have hperm : (takenNumbers l.sendShutdown.server).Perm
      ((l.server.seqNum + 1) :: takenNumbers l.server) := by
    simp only [sendShutdown_server, takenNumbers, List.map_append, List.map_cons, List.map_nil,
      List.append_assoc, List.singleton_append]
    exact List.perm_middle
  refine ⟨hperm.nodup_iff.mpr (List.nodup_cons.mpr ⟨hnew, h.nodup⟩), fun n hn => ?_, fun x hx => ?_, ?_, ?_⟩
  · simp only [sendShutdown_server]
    rcases List.mem_cons.mp (hperm.mem_iff.mp hn) with rfl | hn
    · omega
    · have := h.range n hn
      omega
  · simp only [sendShutdown_server] at hx
    rcases List.mem_append.mp hx with hx | hx
    · exact h.calls x hx
    · simp [List.mem_singleton.mp hx]
  · simpa only [sendShutdown_server] using h.history
  · simpa only [sendShutdown_server] using h.grids

omit [TerminalState T] in
/-- STEP: the two sides still agree after a farewell. -/
theorem Agrees.sendShutdown {server client : ChaChaCodec cr} (h : Agrees server client sid l) :
    Agrees server client sid l.sendShutdown := by
  have hserver := sendShutdown_server l
  have hg : Grows l l.sendShutdown := by
    refine ⟨by simp [hserver], fun e he => ?_, fun e he => he, fun x hx => ?_, fun job hj => hj⟩
    · rw [hserver] at he
      exact .inl he
    · rw [hserver]
      exact List.mem_append_left _ hx
  obtain ⟨datagrams, hdown, hcc⟩ := h.clientCodec
  exact {
    recorded := recorded_sendShutdown h.recorded
    kept := h.kept
    serverCodec := by rw [hserver]; exact h.serverCodec
    sessionId := h.sessionId
    clientCodec := ⟨datagrams, fun b hb => List.mem_append_left _ (hdown b hb), hcc⟩
    pushed := by rw [hserver]; exact h.pushed
    jobs := fun job hj => (h.jobs job hj).grow hg
    down := by
      intro b hb
      rcases mem_sendShutdown hb with hb | ⟨ds, hseal, hlast⟩
      · exact (h.down b hb).grow hg
      · refine ⟨_, _, _, ds, .inl ?_, h.serverCodec ▸ hseal, List.mem_of_getLast? hlast⟩
        rw [hserver]
        simp
    up := fun b hb => (h.up b hb).grow hg
    stored := fun n b t hb => (h.stored n b t hb).grow hg
    ack := h.ack.grow hg
    clientAck := by rw [hserver]; exact h.clientAck.grow hg
    applied := fun e he => by rw [hserver]; exact h.applied e he }

theorem Agrees.play {server client : ChaChaCodec cr} (hrt : PacketCodec.RoundTrips sid server client)
    (hterm : GridsWellFormed T) (h : Agrees server client sid l) {ev : FarewellEvent}
    (hs : l.play ev = some l') : Agrees server client sid l' := by
  cases ev with
  | link ev => exact h.step hrt hterm hs
  | shutdown =>
    cases hs
    exact h.sendShutdown

/-- STEP: only a `shutdown` says farewell. -/
theorem farewells_step {ev : LinkEvent} (hs : l.step ev = some l') :
    farewells l'.server = farewells l.server := by
  rcases step_cases hs with rfl | ⟨sev, hs, -⟩ | ⟨job, -, rfl⟩ | ⟨_, _, _, _, -, rfl⟩ | ⟨cev, hs, -⟩
  · rfl
  · obtain ⟨⟨s', actions⟩, ht, rfl⟩ := Option.map_eq_some_iff.mp hs
    exact farewells_turn ht
  · rfl
  · rfl
  · obtain ⟨⟨c', out⟩, -, rfl⟩ := Option.map_eq_some_iff.mp hs
    rfl

/-- RUN: what the server has said farewell with comes from a `shutdown`. -/
theorem farewells_run {events : List FarewellEvent} (hno : farewells l.server = [])
    (hrun : runFrom play l events = some l') (h : farewells l'.server ≠ []) : .shutdown ∈ events := by
  by_contra hnot
  have hstep : ∀ (k : Link (ChaChaCodec cr) T) ev k', farewells k.server = [] → ev ≠ FarewellEvent.shutdown →
      k.play ev = some k' → farewells k'.server = [] := by
    intro k ev k' hk hev hs
    cases ev with
    | shutdown => exact absurd rfl hev
    | link ev => exact (farewells_step hs).trans hk
  exact h (run_invariant hstep events hno
    (stepsMeet_of_forall fun ev hev heq => hnot (heq ▸ hev)) hrun)

/-! ### The two ends -/

/-- The event makes the client leave. -/
def leavesAt (l : Link (ChaChaCodec cr) T) : FarewellEvent → Bool
  | .link (.deliverDown i now) =>
    (l.down[i]?).any fun bytes => (l.client.feedPacket bytes now).any fun result => leaves result.2
  | _ => false

/-- The event makes the server take a number. -/
def numbersAt (l : Link (ChaChaCodec cr) T) (ev : FarewellEvent) : Bool :=
  (l.play ev).any fun l' => l'.server.seqNum != l.server.seqNum

/-- A payload that fits in one datagram opens at once, whatever else is being reassembled. -/
theorem open_single (hcr : cr.Lawful) {server client : ChaChaCodec cr} (hk : client.crypto = server.crypto)
    {q ack : ℕ} {payload : ServerPayload} {d : Bytes}
    (hseal : server.sealServer q ack payload = .ok [d]) :
    ∃ pkt stats, (client.openServer d).2 = .ok (some (pkt, payload, stats)) ∧ pkt.seqNum = q := by
  obtain ⟨plain, ct, hplain, hct, hmap⟩ := ChaChaCodec.sealServer_eq_ok hseal
  have hlen : ct.length ≤ FRAGMENT_PAYLOAD_SIZE := by
    by_contra hlong
    have hcount := ChaChaCodec.length_of_mapM hmap
    have htwo : 2 ≤ fragmentCount ct := two_le_chunkCount size_pos (Nat.not_le.mp hlong)
    rw [length_fragmentPackets (Nat.not_le.mp hlong), List.length_singleton] at hcount
    omega
  obtain ⟨pkt, stats, hopen, hseq, -⟩ :=
    ChaChaCodec.openServer_short hcr hk hplain hct hlen hmap (List.mem_singleton.mpr rfl)
  exact ⟨pkt, stats, hopen, hseq⟩

omit [TerminalState T] in
/-- The client can only leave on a `Shutdown` the server sealed. -/
theorem Agrees.farewells_of_leaves {server client : ChaChaCodec cr}
    (hrt : PacketCodec.RoundTrips sid server client) (h : Agrees server client sid l) {bytes : Bytes}
    (hb : bytes ∈ l.down) {now : Instant} {c : MirrorSession (ChaChaCodec cr)}
    {r : Except Error (List ClientAction)} (hfeed : l.client.feedPacket bytes now = some (c, r))
    (hleaves : leaves r = true) : farewells l.server ≠ [] := by
  obtain ⟨q, harr, -⟩ := (leaves_feedPacket hfeed).mp hleaves
  obtain ⟨ack, hl | ⟨job, -, update, -, -, -, heq⟩⟩ := h.arrival_ledger hrt hb harr
  · exact List.ne_nil_of_mem (List.mem_filter.mpr ⟨hl, by simp⟩)
  · cases heq

/-- The client's mark moves to the number of what it accepts, and else stays. -/
theorem play_ackSeqNum {ev : FarewellEvent} (hs : l.play ev = some l') :
    l'.client.ackSeqNum = l.client.ackSeqNum ∨
    ∃ i now bytes r q p, ev = .link (.deliverDown i now) ∧ l.down[i]? = some bytes ∧
      l.client.feedPacket bytes now = some (l'.client, r) ∧
      l.client.arrival (.recv bytes now) = some (q, p) ∧ l.client.ackSeqNum < q ∧
      l'.client.ackSeqNum = q := by
  have hreact : ∀ {cev}, l.react cev = some l' → l.client.step cev = some l'.client := by
    intro cev hr
    obtain ⟨⟨s', out⟩, ht, rfl⟩ := Option.map_eq_some_iff.mp hr
    simp [MirrorSession.step, ht]
  cases ev with
  | shutdown => cases hs; exact .inl rfl
  | link ev =>
    have hserve : ∀ sev, l.serve sev = some l' → l'.client.ackSeqNum = l.client.ackSeqNum := by
      intro sev hs
      obtain ⟨⟨s', actions⟩, -, rfl⟩ := Option.map_eq_some_iff.mp hs
      rfl
    have hquiet : ∀ cev, l.client.arrival cev = none → l.react cev = some l' →
        l'.client.ackSeqNum = l.client.ackSeqNum := by
      intro cev hnone hr
      rcases MirrorSession.step_cases (hreact hr) with ⟨hack, -⟩ | ⟨q, p, harr, -⟩
      · exact hack
      · rw [hnone] at harr
        cases harr
    cases ev with
    | deliverDown i now =>
      simp only [play, step] at hs
      split at hs
      · rename_i bytes hb
        have hstep := hreact hs
        obtain ⟨r, hr⟩ := MirrorSession.step_eq_some_iff.mp hstep
        rcases MirrorSession.step_cases hstep with ⟨hack, -⟩ | ⟨q, p, harr, hlt, hack, -⟩
        · exact .inl hack
        · exact .inr ⟨i, now, bytes, r, q, p, rfl, hb, hr, harr, hlt, hack⟩
      · cases hs
        exact .inl rfl
    | stdin buf now => exact .inl (hquiet (.stdin buf now) rfl hs)
    | winch cols rows now => exact .inl (hquiet (.winch cols rows now) rfl hs)
    | clientTick now => exact .inl (hquiet (.tick now) rfl hs)
    | paint dest => exact .inl (hquiet (.paint dest) rfl hs)
    | ptyBytes data now => exact .inl (hserve (.ptyBytes data now) hs)
    | serverTick now echo => exact .inl (hserve (.tick now echo) hs)
    | deliverUp i src now echo =>
      simp only [play, step] at hs
      split at hs
      · exact .inl (hserve _ hs)
      · cases hs
        exact .inl rfl
    | _ =>
      simp only [play, step] at hs
      split at hs <;> cases hs <;> exact .inl rfl

/-- The server has sealed its `Shutdown` under its last number, and the client has not seen it. -/
structure Parting (server client : ChaChaCodec cr) (sid q : ℕ) (l : Link (ChaChaCodec cr) T) : Prop where
  agrees : Agrees server client sid l
  last : l.server.seqNum = q
  sealed : (q, 0, .shutdown) ∈ farewells l.server
  unseen : l.client.ackSeqNum < q

/-- STEP: unless the server takes a number or the client leaves, the parting stays. -/
theorem Parting.step {server client : ChaChaCodec cr} {q : ℕ}
    (hrt : PacketCodec.RoundTrips sid server client) (hterm : GridsWellFormed T)
    (h : Parting server client sid q l) {ev : FarewellEvent}
    (hev : l.numbersAt ev = false ∧ l.leavesAt ev = false) (hs : l.play ev = some l') :
    Parting server client sid q l' := by
  have hagrees := h.agrees.play hrt hterm hs
  have hlast : l'.server.seqNum = q := by
    have := hev.1
    rw [numbersAt, hs] at this
    simpa [h.last] using this
  refine ⟨hagrees, hlast, ?_, ?_⟩
  · cases ev with
    | link ev => rw [farewells_step hs]; exact h.sealed
    | shutdown =>
      cases hs
      rw [sendShutdown_server, h.last] at hlast
      exact absurd hlast (by simp)
  · rcases play_ackSeqNum hs with hack | ⟨i, now, bytes, r, q', p, rfl, hb, hfeed, harr, hlt, hack⟩
    · exact hack ▸ h.unseen
    · -- another packet has a smaller number, and this one would end the client
      have hmem : bytes ∈ l.down := List.mem_of_getElem? hb
      obtain ⟨ack, hl⟩ := h.agrees.arrival_ledger hrt hmem harr
      have hle : q' ≤ q := hack ▸ hlast ▸ hagrees.ack.1
      refine hack ▸ lt_of_le_of_ne hle fun heq => ?_
      subst heq
      have hp := h.agrees.ledger_unique hl (.inl (List.mem_filter.mp h.sealed).1)
      obtain ⟨-, rfl⟩ := Prod.mk.inj hp
      have hleaves := (leaves_feedPacket hfeed).mpr ⟨_, harr, hlt⟩
      have := hev.2
      simp [leavesAt, hb, hfeed, hleaves] at this

end Link

end Rumsh.System
