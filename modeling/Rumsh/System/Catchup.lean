import Rumsh.Client.Arq
import Rumsh.Client.Reception
import Rumsh.Server.Backlog
import Rumsh.System.Inputs
import Rumsh.System.Recovery

/-! Catching up with the client's input.

    Whatever was lost before: one tick of the client that finds everything unacknowledged due sends all the
    server can be missing. Once that has arrived, in any order, the server has applied the client's input
    to the last packet. If the tick sent a keepalive, the answer to it, however it is delayed, clears the
    client's table. -/

namespace Rumsh.Client
open Std Rumsh.Schemes Rumsh.Protocol

namespace MirrorSession
variable {C : Type} [PacketCodec C] {s s' t : MirrorSession C} {now : Instant}

/-! ### The client's tick -/

/-- The keepalive of a tick that goes on: if it is due it takes the next number. -/
theorem tickKeepalive_ok {keepalive : List ClientAction}
    (h : s.tickKeepalive now = (t, .ok keepalive)) :
    (¬ now - s.lastKeepaliveSent ≥ s.keepaliveInterval ∧ t = s) ∨
    (now - s.lastKeepaliveSent ≥ s.keepaliveInterval ∧ ∃ b,
      t.unackedPackets = s.unackedPackets.insert (s.seqNum + 1) (b, now) ∧ t.seqNum = s.seqNum + 1 ∧
      t.issued = s.issued ++ [(s.seqNum + 1, .keepAlive)] ∧ keepalive = [.sendPacket b]) := by
  unfold tickKeepalive prepareKeepalive at h
  split at h
  · rename_i hdue
    split at h
    · cases h
    · rename_i u bytes seq hprep
      cases h
      obtain ⟨v, rfl, ⟨e, -, -, he⟩ | ⟨b, -, rfl, hr⟩⟩ := prepareReliable_inv hprep
      · cases he
      · obtain ⟨rfl, -⟩ := Prod.mk.inj (Except.ok.inj hr)
        exact .inr ⟨hdue, bytes, rfl, rfl, rfl, rfl⟩
  · rename_i hdue
    cases h
    exact .inl ⟨hdue, rfl⟩

omit [PacketCodec C] in
theorem rttLimit_le (s : MirrorSession C) : s.rttLimit ≤ secs 1 := by
  unfold rttLimit millis secs
  omega

/-- A tick that finds the check due and everything unacknowledged older than a second sends all it keeps
    afterwards, and issues nothing but a keepalive that is due. -/
theorem onTick_backlog {actions : List ClientAction} (h : s.onTick now = some (s', .ok actions))
    (hcheck : now - s.lastArqCheck ≥ millis 100)
    (hold : ∀ (n : ℕ) (b : Bytes) (tm : Instant), s.unackedPackets[n]? = some (b, tm) → now - tm ≥ secs 1) :
    (∀ (n : ℕ) (b : Bytes) (tm : Instant), s'.unackedPackets[n]? = some (b, tm) → b ∈ sendsOf actions) ∧
      ((¬ now - s.lastKeepaliveSent ≥ s.keepaliveInterval ∧ s'.seqNum = s.seqNum ∧ s'.issued = s.issued) ∨
      (now - s.lastKeepaliveSent ≥ s.keepaliveInterval ∧ s'.seqNum = s.seqNum + 1 ∧
        s'.issued = s.issued ++ [(s.seqNum + 1, .keepAlive)])) := by
  rcases onTick_inv h with ⟨_, -, hr⟩ | ⟨t, keepalive, u, banner, nacks, hk, hb, hn, hr⟩
  · cases hr
  · obtain ⟨hqb, hsb⟩ := tickBanner_quiet hb
    obtain ⟨hqt, hst⟩ := tickTelemetry_quiet u now
    obtain ⟨_, _, hframe⟩ := tickArq_frame t now
    obtain ⟨_, _, _, _, hframe'⟩ := tickNack_frame hn
    obtain ⟨-, hmirror, hlast⟩ := tickKeepalive_stamped hk
    have hkept : s'.unackedPackets = (t.tickArq now).1.unackedPackets := by
      rw [hframe']
      exact hqt.unackedPackets.trans hqb.unackedPackets
    have hseq : s'.seqNum = t.seqNum := by
      rw [hframe']
      exact (hqt.seqNum.trans hqb.seqNum).trans (by rw [hframe])
    have hissued : s'.issued = t.issued := by
      rw [hframe']
      exact (hqt.issued.trans hqb.issued).trans (by rw [hframe])
    have hdue : ∀ (n : ℕ) (b : Bytes) (tm : Instant), t.unackedPackets[n]? = some (b, tm) →
        now - tm ≥ secs 1 → b ∈ sendsOf (t.tickArq now).2 := by
      intro n b tm hmem hage
      have harq : sendsOf (t.tickArq now).2 = (t.due now).map Prod.snd := by
        unfold tickArq due
        split
        · simp [sendsOf, List.filterMap_map, Function.comp_def]
        · rfl
      rw [harq]
      refine List.mem_map_of_mem (a := (n, b)) (mem_due.mpr ⟨hlast ▸ hcheck, tm, hmem, ?_⟩)
      exact t.rttLimit_le.trans hage
    cases nacks with
    | error e => cases hr
    | ok nacks =>
      obtain rfl := Except.ok.inj hr
      have hsends : ∀ b, b ∈ sendsOf keepalive ∨ b ∈ sendsOf (t.tickArq now).2 →
          b ∈ sendsOf (keepalive ++ (t.tickArq now).2 ++ banner ++ (u.tickTelemetry now).2 ++ nacks) := by
        intro b hb
        simp only [sendsOf_append, List.mem_append]
        tauto
      rcases tickKeepalive_ok hk with ⟨hno, rfl⟩ | ⟨hyes, b₀, hins, hseq', hissued', rfl⟩
      · refine ⟨fun n b tm hmem => ?_, .inl ⟨hno, hseq, hissued⟩⟩
        rw [hkept] at hmem
        obtain ⟨st, hst, -⟩ := tickArq_entry hmem
        exact hsends b (.inr (hdue n b st hst (hold n b st hst)))
      · refine ⟨fun n b tm hmem => ?_, .inr ⟨hyes, hseq.trans hseq', hissued.trans hissued'⟩⟩
        rw [hkept] at hmem
        obtain ⟨st, hst, -⟩ := tickArq_entry hmem
        have hst' := hst
        rw [hins, TreeMap.getElem?_insert] at hst'
        split at hst'
        · obtain ⟨rfl, -⟩ := Prod.mk.inj (Option.some.inj hst')
          exact hsends _ (.inl (by simp))
        · exact hsends b (.inr (hdue n b st hst (hold n b st hst')))

/-- A packet that opens leaves nothing in the table that it acknowledges. -/
theorem feedPacket_prunes {bytes : Bytes} {packet : EncryptedServerPacket} {payload : ServerPayload}
    {stats : CodecStats} {r : Except Error (List ClientAction)}
    (hopen : (PacketCodec.openServer s.codec bytes).2 = .ok (some (packet, payload, stats)))
    (h : s.feedPacket bytes now = some (s', r)) {n : ℕ} (hn : n ∈ s'.unackedPackets) :
    packet.ackSeqNum < n := by
  have hprune : ∀ u : MirrorSession C,
      u.unackedPackets = s.unackedPackets.filter (fun n _ => packet.ackSeqNum < n) →
      n ∈ u.unackedPackets → packet.ackSeqNum < n := by
    intro u hu hn
    rw [hu, TreeMap.mem_filter] at hn
    simpa using hn.2
  rcases feedPacket_cases h with ⟨hno, -⟩ | ⟨packet', payload', stats', t, hopen', hnoted, hcase⟩
  · exact absurd hopen (hno _)
  · cases hopen.symm.trans hopen'
    rcases hcase with ⟨-, rfl, -⟩ | ⟨-, u, hu, hp⟩
    · exact hprune _ hnoted.unackedPackets hn
    · rw [feedPayload_unacked hp] at hn
      exact hprune u (hu.unackedPackets.trans hnoted.unackedPackets) hn

end MirrorSession

end Rumsh.Client

namespace Rumsh.System
open Std Rumsh.Schemes Rumsh.Protocol Rumsh.Server Rumsh.Client

namespace World
variable {cr : Crates} {T : Type}

/-! ### The client's table -/

/-- What is kept is sealed under the number it is kept under. -/
def Stored (setup : Setup) (c : MirrorSession (ChaChaCodec cr)) : Prop :=
  ∀ (n : ℕ) (b : Bytes) (t : Instant), c.unackedPackets[n]? = some (b, t) →
    ∃ (codec : ChaChaCodec cr) (ack : ℕ) (p : ClientPayload),
      codec.SameKeys (ChaChaCodec.new cr setup.key c.sessionId) ∧
      codec.sealClient c.sessionId n ack p = .ok b ∧ (n, p) ∈ c.issued

variable {setup : Setup} {c c' : MirrorSession (ChaChaCodec cr)} {out : List Bytes}

theorem Stored.sent (h : Stored setup c)
    (hk : c.codec.SameKeys (ChaChaCodec.new cr setup.key c.sessionId)) (hs : c.Sent c' out) :
    Stored setup c' := by
  intro n b t hb
  rw [hs.sessionId]
  rcases hs.stored n b t hb with ⟨t', hb⟩ | ⟨p, hseal, hp⟩
  · obtain ⟨codec, ack, p, hk, hseal, hp⟩ := h n b t' hb
    exact ⟨codec, ack, p, hk, hseal, hs.mem_issued hp⟩
  · exact ⟨c.codec, c.ackSeqNum, p, hk, hseal, hp⟩

theorem Stored.received {bytes : Bytes} (h : Stored setup c) (hr : c.Received bytes c') :
    Stored setup c' := by
  intro n b t hb
  rw [hr.sessionId, hr.issued]
  refine h n b t ?_
  rcases hr.unackedPackets with heq | ⟨packet, payload, stats, -, heq⟩
  · exact heq ▸ hb
  · rw [heq, TreeMap.getElem?_filter'] at hb
    exact (Option.filter_eq_some_iff.mp hb).1

/-- STEP: every turn of the client keeps the table so. -/
theorem Stored.turn {bound : ℕ} {ev : MirrorEvent} (h : Stored setup c) (hsend : Sends setup bound c)
    (ht : c.turn ev = some (c', out)) : Stored setup c' := by
  rcases MirrorSession.turn_cases ht with ⟨bytes, now, u, rfl, hr, hs⟩ | ⟨-, hs⟩
  · refine (h.received hr).sent ?_ hs
    rw [hr.codec, hr.sessionId]
    obtain ⟨h₁, h₂, h₃⟩ := ChaChaCodec.sameKeys_openServer c.codec bytes
    obtain ⟨k₁, k₂, k₃⟩ := hsend.codec
    exact ⟨h₁.trans k₁, h₂.trans k₂, h₃.trans k₃⟩
  · exact h.sent hsend.codec hs

theorem pending_turn {ev : MirrorEvent} (h : ClientTerminal.Pending c.seqNum c.mirror)
    (ht : c.turn ev = some (c', out)) : ClientTerminal.Pending c'.seqNum c'.mirror := by
  have hstep : c.step ev = some c' := by simp [MirrorSession.step, ht]
  exact h.moves (MirrorSession.step_moves hstep)

/-! ### The two sides in step -/

/-- A handshake that the serving server takes. -/
def resets [TerminalState T] (w : World cr T) : WorldEvent → Bool
  | .deliverUp i src now echo =>
    match w.server, w.up[i]? with
    | .serving s, some bytes => s.resets (.packet bytes src now echo)
    | _, _ => false
  | _ => false

/-- No ack is beyond what the server has taken, and what the server has not taken the client keeps. -/
structure InStep (setup : Setup) (w : World cr T) : Prop where
  delivers : Delivers setup w
  stored : ∀ c, w.client = .connected c → Stored setup c
  mirror : ∀ c, w.client = .connected c → ClientTerminal.Pending c.seqNum c.mirror
  sends : ∀ s, w.server = .serving s → ∀ c, w.client = .connected c → Sends setup s.ackSeqNum c
  down : ∀ s, w.server = .serving s → ∀ b ∈ w.down, ∀ pkt, deserialize cr.serverPacket b = .ok pkt →
    pkt.ackSeqNum ≤ s.ackSeqNum
  jobs : ∀ s, w.server = .serving s → ∀ job ∈ w.jobs, job.ackSeq ≤ s.ackSeqNum
  drained : ∀ s, w.server = .serving s → s.Drained

variable [TerminalState T] {w w' : World cr T} {ev : WorldEvent}
  {s s' : AuthoritativeSession (ChaChaCodec cr) T}

/-- All that a turn of the server sends or hands out carries the ack it leaves. -/
theorem turn_acks (hcr : cr.Lawful) {sev : SessionEvent}
    {actions : List (SessionAction (ChaChaCodec cr))} (ht : s.turn sev = some (s', actions)) :
    (∀ b ∈ datagramsOf actions, ∀ pkt, deserialize cr.serverPacket b = .ok pkt →
      pkt.ackSeqNum = s'.ackSeqNum) ∧ ∀ job ∈ jobsOf actions, job.ackSeq = s'.ackSeqNum := by
  obtain ⟨s₀, -, he⟩ := AuthoritativeSession.turn_emits ht
  obtain ⟨calls, -, -, -, hack, hsend⟩ := he.calls
  refine ⟨fun b hb pkt hpkt => ?_, fun job hj => (he.jobs job hj).ackSeq⟩
  obtain ⟨x, hx, ds, hseal, hmem⟩ := hsend b hb
  rw [ChaChaCodec.ackSeqNum_of_sealServer hcr hseal hmem hpkt, (hack x hx).1, he.ackSeqNum]

theorem displaces_of_resets (h : w.resets ev = false) : w.displaces ev = false := by
  cases ev with
  | deliverUp i src now echo =>
    simp only [World.displaces]
    split
    · rename_i c s bytes _ hs hb
      simp only [resets, hs, hb, AuthoritativeSession.resets] at h
      simp only [AuthoritativeSession.displaces]
      cases hopen : PacketCodec.openClient s.codec bytes with
      | error e => simp only
      | ok opened =>
        rw [hopen] at h
        simp only [h, Bool.false_and]
    · rfl
  | _ => rfl

/-- Without a handshake the server's window only moves on. -/
theorem InStep.ack_le (h : InStep setup w) (h' : Delivers setup w') (hs : w.server = .serving s)
    (hs' : w'.server = .serving s') (hid : setup.sessionId ≠ 0) {sev : SessionEvent}
    (hreset : s.resets sev = false) {actions : List (SessionAction (ChaChaCodec cr))}
    (ht : s.turn sev = some (s', actions)) : s.ackSeqNum ≤ s'.ackSeqNum := by
  have htakes := h.delivers.server s hs
  have hnext := (h'.server s' hs').next
  have hexp : s.expectedClientSeq ≤ s'.expectedClientSeq := by
    rcases AuthoritativeSession.turn_slides (htakes.sessionId ▸ hid) hreset ht with
      ⟨heq, -⟩ | ⟨_, _, -, -, heq, -⟩ | ⟨ack, -, heq, -⟩
    · exact heq.ge
    · exact heq.ge
    · rw [heq]
      exact (AuthoritativeSession.packetsToProcess_numbers s .keepAlive ack).2.le
  have := htakes.next
  omega

omit [TerminalState T] in
/-- STEP: a turn of the client. -/
theorem InStep.react (h : InStep setup w) (h' : Delivers setup { w with
      client := .connected c', up := w.up ++ out }) (hc : w.client = .connected c) {cev : MirrorEvent}
    (hev : ∀ bytes now, cev = .recv bytes now → bytes ∈ w.down)
    (ht : c.turn cev = some (c', out)) :
    InStep setup { w with client := .connected c', up := w.up ++ out } := by
  refine ⟨h', fun d hd => ?_, fun d hd => ?_, fun s hs d hd => ?_, h.down, h.jobs, h.drained⟩ <;>
    cases hd
  · exact (h.stored c hc).turn (h.delivers.client c hc) ht
  · exact pending_turn (h.mirror c hc) ht
  · refine ((h.sends s hs c hc).turn (fun bytes now heq => ?_) ht).1
    exact h.down s hs bytes (hev bytes now heq)

/-- STEP: the waiting server takes a handshake. Its answer acknowledges that handshake. -/
theorem InStep.accept (hcr : cr.Lawful) (h : InStep setup w) {hs : HandshakeResult} {reply : List Bytes}
    {now : Instant} (h' : Delivers setup { w with
      server := (startSession setup hs now : ServerPhase cr T), down := w.down ++ reply })
    (hw : w.server = .waiting) {bytes : Bytes} {src : SocketAddr}
    (hh : waitForClientHandshake cr setup.cryptoHandshake setup.sessionId bytes src =
      some (some (hs, reply))) :
    InStep setup { w with
      server := (startSession setup hs now : ServerPhase cr T), down := w.down ++ reply } := by
  have hf := h.delivers.fresh hw
  have hnone : ∀ c, w.client ≠ .connected c := fun c hc => by
    rw [hf.client] at hc
    cases hc
  have hnew : ∀ s : AuthoritativeSession (ChaChaCodec cr) T, startSession setup hs now = .serving s →
      AuthoritativeSession.new hs.sessionId (ChaChaCodec.new cr setup.key hs.sessionId) hs.clientStartSeq
        hs.clientAddr hs.cols hs.rows now = .ok s := by
    intro s hs'
    simp only [startSession] at hs'
    split at hs'
    · rename_i hok
      cases hs'
      exact hok
    · cases hs'
  refine ⟨h', fun c hc => absurd hc (hnone c), fun c hc => absurd hc (hnone c),
    fun s _ c hc => absurd hc (hnone c), fun s hs' b hb pkt hpkt => ?_, fun s hs' job hj => ?_,
    fun s hs' => AuthoritativeSession.drained_new (hnew s hs')⟩
  · have hack : s.ackSeqNum = hs.clientStartSeq := by
      obtain ⟨t, -, hok⟩ := bind_eq_ok.mp (hnew s hs')
      cases hok
      rfl
    simp only [hf.down, List.nil_append] at hb
    unfold waitForClientHandshake at hh
    split at hh
    · cases hh
    · rename_i n cols rows _
      obtain ⟨reply', hreply, heq⟩ := Option.map_eq_some_iff.mp hh
      obtain ⟨rfl, rfl⟩ := Prod.mk.inj (Option.some.inj heq)
      have hacc := acceptReply_handshakeReply hcr hreply hb
      simp only [acceptReply, hpkt] at hacc
      split at hacc
      · rename_i heq
        rw [heq, hack]
      · cases hacc
  · rw [hf.jobs] at hj
    cases hj

/-- STEP: a turn of the server that takes no handshake. -/
theorem InStep.serve (hcr : cr.Lawful) (h : InStep setup w) {sev : SessionEvent}
    {actions : List (SessionAction (ChaChaCodec cr))} (h' : Delivers setup { w with
      server := .serving s', down := w.down ++ datagramsOf actions
      jobs := w.jobs ++ jobsOf actions, applied := w.applied ++ s.applies sev })
    (hs : w.server = .serving s) (hid : setup.sessionId ≠ 0)
    (hreset : ∀ bytes src now echo, sev = .packet bytes src now echo → s.resets sev = false)
    (ht : s.turn sev = some (s', actions)) :
    InStep setup { w with
      server := .serving s', down := w.down ++ datagramsOf actions
      jobs := w.jobs ++ jobsOf actions, applied := w.applied ++ s.applies sev } := by
  have hno : s.resets sev = false := by
    cases sev with
    | packet bytes src now echo => exact hreset bytes src now echo rfl
    | _ => rfl
  have hle : s.ackSeqNum ≤ s'.ackSeqNum := h.ack_le h' hs rfl hid hno ht
  obtain ⟨hout, hjobs⟩ := turn_acks hcr ht
  refine ⟨h', h.stored, h.mirror, fun u hu c hc => ?_, fun u hu b hb pkt hpkt => ?_,
    fun u hu job hj => ?_, fun u hu => ?_⟩ <;> cases hu
  · exact (h.sends s hs c hc).mono hle
  · rcases List.mem_append.mp hb with hb | hb
    · exact (h.down s hs b hb pkt hpkt).trans hle
    · exact (hout b hb pkt hpkt).le
  · rcases List.mem_append.mp hj with hj | hj
    · exact (h.jobs s hs job hj).trans hle
    · exact (hjobs job hj).le
  · exact (AuthoritativeSession.turn_got ((h.delivers.server s hs).sessionId ▸ hid) hno ht).2.2
      (h.drained s hs)

omit [TerminalState T] in
/-- STEP: the shutdown packet acknowledges nothing, and the window stays. -/
theorem InStep.shutdown (hcr : cr.Lawful) (h : InStep setup w) (h' : Delivers setup { w with
      server := .serving s.prepareShutdown.1
      down := w.down ++ datagramsOf (actionsOf (s.prepareShutdown.2.map fun action => [action])) })
    (hs : w.server = .serving s) :
    InStep setup { w with
      server := .serving s.prepareShutdown.1
      down := w.down ++
        datagramsOf (actionsOf (s.prepareShutdown.2.map fun action => [action])) } := by
  refine ⟨h', h.stored, h.mirror, fun u hu c hc => ?_, fun u hu b hb pkt hpkt => ?_,
    fun u hu job hj => ?_, fun u hu => ?_⟩ <;> cases hu
  · exact h.sends s hs c hc
  · rcases List.mem_append.mp hb with hb | hb
    · exact h.down s hs b hb pkt hpkt
    · obtain ⟨ds, hseal, hlast⟩ := mem_prepareShutdown hb
      rw [ChaChaCodec.ackSeqNum_of_sealServer hcr hseal (List.mem_of_getLast? hlast) hpkt]
      exact Nat.zero_le _
  · exact h.jobs s hs job hj
  · exact h.drained s hs

/-- STEP: as long as the server takes no second handshake, the two sides stay in step. -/
theorem InStep.step (hcr : cr.Lawful) (hshort : cr.SealsShort) (hid : setup.sessionId ≠ 0)
    (h : InStep setup w) (hreset : w.resets ev = false) (hstep : w.step setup ev = some w') :
    InStep setup w' := by
  have h' := h.delivers.step hcr hshort (displaces_of_resets hreset) hstep
  cases step_moves hstep with
  | stay => exact h
  | attempt hc hn =>
    obtain ⟨out, heq, -⟩ := attempt_eq setup { w with handshakeSeq := _ }
    rw [heq] at h' ⊢
    refine ⟨h', fun c hc' => ?_, fun c hc' => ?_, fun s hs c hc' => ?_, h.down, h.jobs, h.drained⟩ <;>
      exact absurd (hc.symm.trans hc') (by simp)
  | connect hc hb _ ht =>
    refine ⟨h', fun d hd => ?_, fun d hd => ?_, fun s hs d hd => ?_, h.down, h.jobs, h.drained⟩ <;>
      cases hd
    · exact Stored.turn (by simp [Stored, MirrorSession.new]) (sends_new setup 0 _ _ _ _ _ _) ht
    · exact pending_turn (MirrorSession.pending_new ..) ht
    · exact ((sends_new setup s.ackSeqNum _ _ _ _ _ _).turn (by simp) ht).1
  | react hc ht hev => exact h.react h' hc hev ht
  | accept hw _ _ hh => exact h.accept hcr h' hw hh
  | serve hs ht hev =>
    refine h.serve hcr h' hs hid (fun bytes src now echo heq => ?_) ht
    obtain ⟨i, rfl, hi⟩ := hev bytes src now echo heq
    simpa only [resets, hs, hi, heq] using hreset
  | runJob hj =>
    refine ⟨h', h.stored, h.mirror, h.sends, fun s hs b hb pkt hpkt => ?_, h.jobs, h.drained⟩
    rcases List.mem_append.mp hb with hb | hb
    · exact h.down s hs b hb pkt hpkt
    · obtain ⟨update, ds, -, hseal, hmem⟩ := mem_jobDatagrams hb
      rw [ChaChaCodec.ackSeqNum_of_sealServer hcr hseal hmem hpkt]
      exact h.jobs s hs _ hj
  | shutdown hs => exact h.shutdown hcr h' hs

omit [TerminalState T] in
theorem inStep_start (setup : Setup) : InStep setup (start setup : World cr T) := by
  have hd : Delivers setup (start setup : World cr T) := delivers_start setup
  obtain ⟨out, heq, -⟩ := attempt_eq setup (initial : World cr T)
  rw [start, heq] at hd ⊢
  refine ⟨hd, ?_, ?_, ?_, ?_, ?_, ?_⟩ <;> simp [initial]

/-! ### One round -/

/-- Something happens at the server, or to what it hands out. -/
def WorldEvent.atServer : WorldEvent → Bool
  | .deliverUp _ _ _ _ => true
  | .ptyBytes _ _ => true
  | .serverTick _ _ => true
  | .runJob _ => true
  | _ => false

/-- The answer to a keepalive of this number, or of a later one, has been sent. -/
def Answered (setup : Setup) (w : World cr T) (n : ℕ) : Prop :=
  ∃ q ack ds, n ≤ ack ∧ (ChaChaCodec.new cr setup.key setup.sessionId).sealServer q ack .keepAlive =
    .ok ds ∧ ∀ d ∈ ds, d ∈ w.down

omit [TerminalState T] in
theorem Answered.mono {n : ℕ} (h : Answered setup w n) (hd : ∀ d ∈ w.down, d ∈ w'.down) :
    Answered setup w' n := by
  obtain ⟨q, ack, ds, hn, hseal, hmem⟩ := h
  exact ⟨q, ack, ds, hn, hseal, fun d hmem' => hd d (hmem d hmem')⟩

/-- A datagram brings the packet of this number to the server. -/
def Brings (setup : Setup) (w : World cr T) (ev : WorldEvent) (n : ℕ) : Prop :=
  ∃ i src now echo b, ev = .deliverUp i src now echo ∧ w.up[i]? = some b ∧
    AuthoritativeSession.reliableSeq (ChaChaCodec.new cr setup.key setup.sessionId) setup.sessionId
      (.packet b src now echo) = some n

/-- What a stretch of events at the server does, while the client waits. -/
structure Served (setup : Setup) (s : AuthoritativeSession (ChaChaCodec cr) T) (w : World cr T)
    (s' : AuthoritativeSession (ChaChaCodec cr) T) (w' : World cr T) : Prop where
  client : w'.client = w.client
  server : w'.server = .serving s'
  up : w'.up = w.up
  down : ∀ d ∈ w.down, d ∈ w'.down
  handshakeSeq : w'.handshakeSeq = w.handshakeSeq
  got : ∀ n, s.Got n → s'.Got n
  answered : ∀ n, (n, .keepAlive) ∈ w'.applied → (n, .keepAlive) ∈ w.applied ∨ Answered setup w' n

/-- STEP: the server takes an event without a panic, and answers the keepalives it applies. -/
theorem InStep.served (hcr : cr.Lawful) (hshort : cr.SealsShort) (hid : setup.sessionId ≠ 0)
    (h : InStep setup w) (hs : w.server = .serving s) (hev : WorldEvent.atServer ev = true)
    (hreset : w.resets ev = false) :
    ∃ w' s', w.step setup ev = some w' ∧ Served setup s w s' w' ∧
      ∀ n, Brings setup w ev n → s'.Got n := by
  have htakes := h.delivers.server s hs
  have hrel : ∀ e, Issued w.client e → isReliable e.2 = true := by
    rintro e ⟨c, hc, he⟩
    exact (h.delivers.client c hc).reliable e he
  -- a turn of the session
  have hturn : ∀ sev, s.resets sev = false →
      (∀ bytes src now echo, sev = .packet bytes src now echo → bytes ∈ w.up) →
      (∀ w', w.serve sev = some w' → w.step setup ev = some w') →
      ∃ w' s', w.step setup ev = some w' ∧ Served setup s w s' w' ∧
        ∀ n, AuthoritativeSession.reliableSeq (ChaChaCodec.new cr setup.key setup.sessionId)
          setup.sessionId sev = some n → s'.Got n := by
    intro sev hno hup hstep
    have hk := ChaChaCodec.sealServer_keepAlive hcr hshort s.codec
    have hheld : ∀ (n : ℕ) (p : ClientPayload), s.outOfOrderPackets[n]? = some p →
        isReliable p = true := fun n p hn => hrel _ (htakes.held n p hn)
    have harr : ∀ bytes src now echo wire p st, sev = .packet bytes src now echo →
        PacketCodec.openClient s.codec bytes = .ok (wire, p, st) → wire.sessionId ≠ 0 →
        wire.sessionId = s.sessionId → AuthoritativeSession.isTransient wire.seqNum p = false →
        isReliable p = true := fun bytes src now echo wire p st heq hopen h0 hsid htr =>
      hrel _ (htakes.issued_of_open hcr (h.delivers.up bytes (hup bytes src now echo heq)) hopen h0 hsid
        htr)
    obtain ⟨s', actions, ht⟩ := AuthoritativeSession.turn_total hk hheld harr
    have hserve : w.serve sev = some { w with
        server := .serving s', down := w.down ++ datagramsOf actions
        jobs := w.jobs ++ jobsOf actions, applied := w.applied ++ s.applies sev } := by
      simp only [World.serve, hs, ht, Option.map_some]
    have hw' := h.step hcr hshort hid hreset (hstep _ hserve)
    obtain ⟨hgot, harrived, -⟩ := AuthoritativeSession.turn_got (htakes.sessionId ▸ hid) hno ht
    rw [htakes.codec, htakes.sessionId] at harrived
    refine ⟨_, s', hstep _ hserve, ⟨rfl, rfl, rfl, fun d hd => List.mem_append_left _ hd, rfl, hgot,
      fun n hn => ?_⟩, harrived⟩
    rcases List.mem_append.mp hn with hn' | hn'
    · exact .inl hn'
    · obtain ⟨q, ds, hseal, hout⟩ := AuthoritativeSession.turn_replies hk hheld harr ht hn'
      obtain ⟨b, -, -, -, hnum⟩ := (hw'.delivers.server s' rfl).stretch
      have hle : n ∈ List.range' (b + 1) (s'.ackSeqNum - b) := by
        rw [← hnum]
        exact List.mem_map_of_mem (f := Prod.fst) hn
      rw [List.mem_range'_1] at hle
      rw [htakes.codec] at hseal
      exact .inr ⟨q, s'.ackSeqNum, ds, by omega, hseal, fun d hd => List.mem_append_right _ (hout d hd)⟩
  cases ev with
  | deliverUp i src now echo =>
    cases hb : w.up[i]? with
    | none =>
      refine ⟨w, s, by simp only [World.step, hb],
        ⟨rfl, hs, rfl, fun _ => id, rfl, fun _ => id, fun n => .inl⟩, ?_⟩
      rintro n ⟨j, _, _, _, b, heq, hb', -⟩
      cases heq
      rw [hb] at hb'
      cases hb'
    | some bytes =>
      obtain ⟨w', s', hstep, hserved, harr⟩ := hturn (.packet bytes src now echo)
        (by simpa only [resets, hs, hb] using hreset)
        (by rintro _ _ _ _ ⟨⟩; exact List.mem_of_getElem? hb)
        (fun w' hw' => by simpa only [World.step, hb, World.receive, hs] using hw')
      refine ⟨w', s', hstep, hserved, ?_⟩
      rintro n ⟨j, _, _, _, b, heq, hb', hn⟩
      cases heq
      obtain rfl := Option.some.inj (hb.symm.trans hb')
      exact harr n hn
  | ptyBytes data now =>
    obtain ⟨w', s', hstep, hserved, -⟩ := hturn (.ptyBytes data now) rfl (by rintro _ _ _ _ ⟨⟩)
      fun _ => id
    exact ⟨w', s', hstep, hserved, by rintro n ⟨_, _, _, _, _, heq, -⟩; cases heq⟩
  | serverTick now echo =>
    obtain ⟨w', s', hstep, hserved, -⟩ := hturn (.tick now echo) rfl (by rintro _ _ _ _ ⟨⟩) fun _ => id
    exact ⟨w', s', hstep, hserved, by rintro n ⟨_, _, _, _, _, heq, -⟩; cases heq⟩
  | runJob i =>
    have hnone : ∀ n, Brings setup w (.runJob i) n → s.Got n := by
      rintro n ⟨_, _, _, _, _, heq, -⟩
      cases heq
    cases hj : w.jobs[i]? with
    | none =>
      exact ⟨w, s, by simp only [World.step, hj],
        ⟨rfl, hs, rfl, fun _ => id, rfl, fun _ => id, fun n => .inl⟩, hnone⟩
    | some job =>
      refine ⟨{ w with down := w.down ++ jobDatagrams job, ran := w.ran ++ [job] }, s,
        by simp only [World.step, hj], ?_, hnone⟩
      exact ⟨rfl, hs, rfl, fun d hd => List.mem_append_left _ hd, rfl, fun _ => id, fun n => .inl⟩
  | _ => cases hev

/-- RUN: a round of such events, and all it brings has arrived. -/
theorem InStep.served_run (hcr : cr.Lawful) (hshort : cr.SealsShort) (hid : setup.sessionId ≠ 0) :
    ∀ (round : List WorldEvent) {w : World cr T} {s : AuthoritativeSession (ChaChaCodec cr) T},
      InStep setup w → w.server = .serving s → (∀ ev ∈ round, WorldEvent.atServer ev = true) →
      StepsMeet (World.step setup) (fun w ev => w.resets ev = false) w round →
      ∃ w' s', runFrom (World.step setup) w round = some w' ∧ InStep setup w' ∧
        Served setup s w s' w' ∧ ∀ ev ∈ round, ∀ n, Brings setup w ev n → s'.Got n
  | [], w, s, h, hs, _, _ =>
      ⟨w, s, rfl, h, ⟨rfl, hs, rfl, fun _ => id, rfl, fun _ => id, fun n => .inl⟩, by simp⟩
  | ev :: round, w, s, h, hs, hev, hone => by
      obtain ⟨hev₀, hev⟩ := List.forall_mem_cons.mp hev
      obtain ⟨t, u, ht, h₁, hgot₁⟩ := h.served hcr hshort hid hs hev₀ hone.1
      obtain ⟨w', s', hrun, h', h₂, hgot₂⟩ := InStep.served_run hcr hshort hid round
        (h.step hcr hshort hid hone.1 ht) h₁.server hev (hone.2 t ht)
      refine ⟨w', s', by rw [runFrom_cons, ht]; exact hrun, h', ⟨h₂.client.trans h₁.client, h₂.server,
        h₂.up.trans h₁.up, fun d hd => h₂.down d (h₁.down d hd), h₂.handshakeSeq.trans h₁.handshakeSeq,
        fun n hn => h₂.got n (h₁.got n hn), fun n hn => ?_⟩, fun e he n hn => ?_⟩
      · rcases h₂.answered n hn with hn | hn
        · exact (h₁.answered n hn).imp_right fun ha => ha.mono h₂.down
        · exact .inr hn
      · rcases List.mem_cons.mp he with rfl | he
        · exact h₂.got n (hgot₁ n hn)
        · refine hgot₂ e he n ?_
          obtain ⟨i, src, now, echo, b, heq, hb, hseq⟩ := hn
          exact ⟨i, src, now, echo, b, heq, h₁.up ▸ hb, hseq⟩

/-! ### Everything is applied -/

omit [TerminalState T] in
/-- The server has applied the stretch of the client's input between a handshake and its ack. -/
theorem Takes.applied_eq_stretch {k : ℕ} {applied : List (ℕ × ClientPayload)}
    (h : Takes setup k (.connected c) applied s) (hsort : c.issued.Pairwise fun e e' => e.1 < e'.1) :
    ∃ b, 1 ≤ b ∧ b ≤ k ∧ b ≤ s.ackSeqNum ∧
      applied = c.issued.filter fun e => decide (b < e.1) && decide (e.1 ≤ s.ackSeqNum) := by
  obtain ⟨b, h1, hb, hack, hnum⟩ := h.stretch
  refine ⟨b, h1, hb, hack, ?_⟩
  have hissued : ∀ e ∈ applied, e ∈ c.issued := by
    intro e he
    obtain ⟨c', hc', he⟩ := h.issued e he
    cases hc'
    exact he
  have hinj : (c.issued.map Prod.fst).Nodup := (List.pairwise_map.mpr hsort).imp Nat.ne_of_lt
  have hmem : ∀ e, e ∈ applied ↔
      e ∈ c.issued.filter fun e => decide (b < e.1) && decide (e.1 ≤ s.ackSeqNum) := by
    intro e
    rw [List.mem_filter, Bool.and_eq_true, decide_eq_true_eq, decide_eq_true_eq]
    constructor
    · intro he
      have hin := List.mem_map_of_mem (f := Prod.fst) he
      rw [hnum, List.mem_range'_1] at hin
      exact ⟨hissued e he, by omega, by omega⟩
    · rintro ⟨he, hlt, hle⟩
      have hin : e.1 ∈ applied.map Prod.fst := by
        rw [hnum, List.mem_range'_1]
        omega
      obtain ⟨e', he', heq⟩ := List.mem_map.mp hin
      exact List.inj_on_of_nodup_map hinj (hissued e' he') he heq ▸ he'
  have hsort₁ : applied.Pairwise fun e e' => e.1 < e'.1 :=
    List.pairwise_map.mp (hnum ▸ List.pairwise_lt_range')
  have hsort₂ := hsort.filter fun e => decide (b < e.1) && decide (e.1 ≤ s.ackSeqNum)
  have hperm := (List.perm_ext_iff_of_nodup (hsort₁.imp fun hlt heq => by simp [heq] at hlt)
    (hsort₂.imp fun hlt heq => by simp [heq] at hlt)).mpr hmem
  exact hperm.eq_of_pairwise (fun _ _ _ _ h h' => absurd h' (Nat.lt_asymm h)) hsort₁ hsort₂

omit [TerminalState T] in
/-- A server that has taken every number has applied the client's input, from behind a handshake on. -/
theorem Takes.applied_eq {k : ℕ} {applied : List (ℕ × ClientPayload)}
    (h : Takes setup k (.connected c) applied s)
    (hsort : c.issued.Pairwise fun e e' => e.1 < e'.1) (hle : ∀ e ∈ c.issued, e.1 ≤ s.ackSeqNum) :
    ∃ b, 1 ≤ b ∧ b ≤ k ∧ applied = c.issued.filter fun e => decide (b < e.1) := by
  obtain ⟨b, h1, hb, -, heq⟩ := h.applied_eq_stretch hsort
  refine ⟨b, h1, hb, heq.trans (List.filter_congr fun e he => ?_)⟩
  rw [decide_eq_true (hle e he), Bool.and_true]

omit [TerminalState T] in
/-- RUN: receiving keeps the keys and puts nothing into the table. -/
theorem receptions_keep : ∀ (ds : List (Bytes × Instant)) {c₁ c₂ : MirrorSession (ChaChaCodec cr)},
    runFrom MirrorSession.step c₁ (Link.receptions ds) = some c₂ →
    c₂.codec.SameKeys c₁.codec ∧ ∀ (n : ℕ) (e : Bytes × Instant), c₂.unackedPackets[n]? = some e →
      c₁.unackedPackets[n]? = some e
  | [], c₁, c₂, h => by
      cases h
      exact ⟨⟨rfl, rfl, rfl⟩, fun _ _ => id⟩
  | d :: ds, c₁, c₂, h => by
      obtain ⟨t, ht, h⟩ := Option.bind_eq_some_iff.mp h
      obtain ⟨⟨k₁, k₂, k₃⟩, hsub⟩ := receptions_keep ds h
      obtain ⟨r, hr⟩ := MirrorSession.step_eq_some_iff.mp ht
      have hfeed : c₁.feedPacket d.1 d.2 = some (t, r) := hr
      obtain ⟨u, hu, hs⟩ := MirrorSession.feedPacket_sent hfeed
      have hcodec : t.codec.SameKeys c₁.codec := by
        rw [hs.codec, hu.codec]
        exact ChaChaCodec.sameKeys_openServer _ _
      obtain ⟨m₁, m₂, m₃⟩ := hcodec
      exact ⟨⟨k₁.trans m₁, k₂.trans m₂, k₃.trans m₃⟩, fun n e he =>
        MirrorSession.feedPacket_unacked hfeed (hsub n e he)⟩

omit [TerminalState T] in
/-- The one datagram of a keepalive opens at once, whatever else is being reassembled. -/
theorem open_keepAlive (hcr : cr.Lawful) (hshort : cr.SealsShort) (htag : cr.AddsTag)
    {server client : ChaChaCodec cr} (hk : client.crypto = server.crypto) {q ack : ℕ} {ds : List Bytes}
    (hseal : server.sealServer q ack .keepAlive = .ok ds) {d : Bytes} (hd : d ∈ ds) :
    ∃ pkt stats, (client.openServer d).2 = .ok (some (pkt, .keepAlive, stats)) ∧
      pkt.ackSeqNum = ack := by
  obtain ⟨plain, ct, hplain, hct, hmap⟩ := ChaChaCodec.sealServer_eq_ok hseal
  obtain rfl : [0, 2] = plain := by
    simpa [serializeCompressed, serialize, hshort.encode_keepAlive, bind, Except.bind, pure,
      Except.pure] using hplain
  have hlen : ct.length ≤ FRAGMENT_PAYLOAD_SIZE := by
    rw [htag _ _ _ _ (okOr_eq_ok.mp hct)]
    decide
  obtain ⟨pkt, stats, hopen, -, hack⟩ := ChaChaCodec.openServer_short hcr hk hplain hct hlen hmap hd
  exact ⟨pkt, stats, hopen, hack⟩

end World

end Rumsh.System
