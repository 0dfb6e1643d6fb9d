import Rumsh.System.World
import Rumsh.Server.Intake
import Rumsh.Protocol.Integrity

/-! The client's input, from its numbering to the PTY.

    The server's window starts after the handshake it took, number `k ≥ 1`; the client's session numbers
    its packets from 1. So what the client sends under the first numbers is taken for duplicates, and
    acknowledged. Above `k` the two agree: what is acknowledged was applied. -/

namespace Rumsh.System
open Std Rumsh.Schemes Rumsh.Protocol Rumsh.Server Rumsh.Client

namespace World
variable {cr : Crates} {T : Type}

/-! ### The invariant -/

/-- A packet the client's session issued. -/
def Issued (client : ClientPhase cr) (e : ℕ × ClientPayload) : Prop :=
  ∃ c, client = .connected c ∧ e ∈ c.issued

/-- A handshake of the loop. -/
def FromLoop (cr : Crates) (setup : Setup) (k : ℕ) (b : Bytes) : Prop :=
  ∃ n, 1 ≤ n ∧ n ≤ k ∧
    handshakePacket cr setup.cryptoHandshake n setup.cols setup.rows = .ok b

/-- A datagram of the client's session. -/
def FromSession (setup : Setup) (c : MirrorSession (ChaChaCodec cr)) (b : Bytes) : Prop :=
  ∃ (codec : ChaChaCodec cr) (q ack : ℕ) (p : ClientPayload),
    codec.SameKeys (ChaChaCodec.new cr setup.key c.sessionId) ∧
    codec.sealClient c.sessionId q ack p = .ok b ∧
    ((q, p) ∈ c.issued ∨ p = .ack ∨ ∃ f m, p = .fragmentNack f m)

/-- The client's session, when no ack beyond `bound` can reach it. -/
structure Sends (setup : Setup) (bound : ℕ) (c : MirrorSession (ChaChaCodec cr)) : Prop where
  codec : c.codec.SameKeys (ChaChaCodec.new cr setup.key c.sessionId)
  sorted : c.issued.Pairwise fun e e' => e.1 < e'.1
  range : ∀ e ∈ c.issued, e.1 ≤ c.seqNum
  reliable : ∀ e ∈ c.issued, isReliable e.2 = true
  stored : ∀ (n : ℕ) (b : Bytes) (t : Instant), c.unackedPackets[n]? = some (b, t) →
    FromSession setup c b
  acked : ∀ e ∈ c.issued, e.1 ∈ c.unackedPackets ∨ e.1 ≤ bound

/-- The server's session: it has applied a stretch of numbers that begins after a handshake. -/
structure Takes (setup : Setup) (k : ℕ) (client : ClientPhase cr) (applied : List (ℕ × ClientPayload))
    (s : AuthoritativeSession (ChaChaCodec cr) T) : Prop where
  codec : s.codec = ChaChaCodec.new cr setup.key setup.sessionId
  sessionId : s.sessionId = setup.sessionId
  next : s.expectedClientSeq = s.ackSeqNum + 1
  stretch : ∃ b, 1 ≤ b ∧ b ≤ k ∧ b ≤ s.ackSeqNum ∧
    applied.map Prod.fst = List.range' (b + 1) (s.ackSeqNum - b)
  held : ∀ (n : ℕ) (p : ClientPayload), s.outOfOrderPackets[n]? = some p → Issued client (n, p)
  issued : ∀ e ∈ applied, Issued client e
  log : s.clientCalls = applied.flatMap fun e => callsOf e.2

/-- The highest number an ack can name. -/
def ackBound (w : World cr T) : ℕ :=
  match w.server with
  | .serving s => max w.handshakeSeq s.ackSeqNum
  | _ => w.handshakeSeq

structure Delivers (setup : Setup) (w : World cr T) : Prop where
  first : 1 ≤ w.handshakeSeq
  fresh : w.server = .waiting → Fresh setup w
  up : ∀ b ∈ w.up, FromLoop cr setup w.handshakeSeq b ∨
    ∃ c, w.client = .connected c ∧ FromSession setup c b
  client : ∀ c, w.client = .connected c → Sends setup w.ackBound c
  server : ∀ s, w.server = .serving s → Takes setup w.handshakeSeq w.client w.applied s
  down : ∀ b ∈ w.down, ∀ pkt, deserialize cr.serverPacket b = .ok pkt → pkt.ackSeqNum ≤ w.ackBound
  jobs : ∀ job ∈ w.jobs, job.ackSeq ≤ w.ackBound

/-! ### The client's turns -/

variable {setup : Setup} {bound bound' : ℕ} {c c' : MirrorSession (ChaChaCodec cr)} {out : List Bytes}

theorem FromSession.grow {b : Bytes} (h : FromSession setup c b) (hsid : c'.sessionId = c.sessionId)
    (hi : ∀ e ∈ c.issued, e ∈ c'.issued) : FromSession setup c' b := by
  obtain ⟨codec, q, ack, p, hk, hseal, hp⟩ := h
  exact ⟨codec, q, ack, p, hsid ▸ hk, hsid ▸ hseal, hp.imp_left (hi _)⟩

theorem Sends.mono (h : Sends setup bound c) (hb : bound ≤ bound') : Sends setup bound' c :=
  { h with acked := fun e he => (h.acked e he).imp_right fun hle => hle.trans hb }

/-- STEP: sealing and resending. -/
theorem Sends.sent (h : Sends setup bound c) (hs : c.Sent c' out) :
    Sends setup bound c' ∧ ∀ b ∈ out, FromSession setup c' b := by
  have hgrow : ∀ b, FromSession setup c b → FromSession setup c' b := fun b hb =>
    hb.grow hs.sessionId fun e he => hs.mem_issued he
  have hnew : ∀ q p b, PacketCodec.sealClient c.codec c.sessionId q c.ackSeqNum p = .ok b →
      ((q, p) ∈ c'.issued ∨ p = .ack ∨ ∃ f m, p = .fragmentNack f m) → FromSession setup c' b := by
    intro q p b hseal hp
    rw [FromSession, hs.sessionId]
    exact ⟨c.codec, q, c.ackSeqNum, p, h.codec, hseal, hp⟩
  obtain ⟨new, hi, hsort, hrange⟩ := hs.issued
  have hcases : ∀ e ∈ c'.issued, e ∈ c.issued ∨ e ∈ new := fun e he =>
    List.mem_append.mp (hi ▸ he)
  refine ⟨⟨?_, ?_, fun e he => ?_, fun e he => ?_, fun n b t hb => ?_, fun e he => ?_⟩,
    fun b hb => ?_⟩
  · rw [hs.codec, hs.sessionId]
    exact h.codec
  · rw [hi]
    refine List.pairwise_append.mpr ⟨h.sorted, hsort, fun e he e' he' => ?_⟩
    exact (h.range e he).trans_lt (hrange e' he').1
  · rcases hcases e he with he | he
    · exact (h.range e he).trans hs.seqNum
    · exact (hrange e he).2.1
  · rcases hcases e he with he | he
    · exact h.reliable e he
    · exact (hrange e he).2.2
  · rcases hs.stored n b t hb with ⟨t', hb⟩ | ⟨p, hseal, hp⟩
    · exact hgrow b (h.stored n b t' hb)
    · exact hnew n p b hseal (.inl hp)
  · rcases hs.keptNew e he with he | he
    · exact (h.acked e he).imp_left (hs.kept e.1)
    · exact .inl he
  · rcases hs.out b hb with ⟨n, t, hb⟩ | ⟨q, p, hseal, hp⟩
    · exact hgrow b (h.stored n b t hb)
    · exact hnew q p b hseal hp

/-- STEP: a datagram whose ack is within the bound is taken in. -/
theorem Sends.received {bytes : Bytes} (h : Sends setup bound c) (hr : c.Received bytes c')
    (hack : ∀ pkt, deserialize cr.serverPacket bytes = .ok pkt → pkt.ackSeqNum ≤ bound) :
    Sends setup bound c' := by
  have hsub : ∀ (n : ℕ) (b : Bytes) (t : Instant), c'.unackedPackets[n]? = some (b, t) →
      c.unackedPackets[n]? = some (b, t) := by
    intro n b t hb
    rcases hr.unackedPackets with heq | ⟨packet, payload, stats, -, heq⟩
    · exact heq ▸ hb
    · rw [heq, TreeMap.getElem?_filter'] at hb
      exact (Option.filter_eq_some_iff.mp hb).1
  refine ⟨?_, hr.issued ▸ h.sorted, ?_, ?_, fun n b t hb => ?_, fun e he => ?_⟩
  · obtain ⟨h₁, h₂, h₃⟩ := ChaChaCodec.sameKeys_openServer c.codec bytes
    obtain ⟨k₁, k₂, k₃⟩ := h.codec
    rw [hr.codec, hr.sessionId]
    exact ⟨h₁.trans k₁, h₂.trans k₂, h₃.trans k₃⟩
  · rw [hr.issued, hr.seqNum]
    exact h.range
  · rw [hr.issued]
    exact h.reliable
  · exact (h.stored n b t (hsub n b t hb)).grow hr.sessionId fun e he => hr.issued ▸ he
  · rw [hr.issued] at he
    rcases hr.unackedPackets with heq | ⟨packet, payload, stats, hopen, heq⟩
    · rw [heq]
      exact h.acked e he
    · -- what the ack takes out of the table is within the bound
      obtain ⟨wire, hwire, heqack⟩ := ChaChaCodec.ackSeqNum_of_openServer hopen
      rcases h.acked e he with hmem | hle
      · by_cases hlt : packet.ackSeqNum < e.1
        · refine .inl ?_
          rw [heq, TreeMap.mem_filter]
          exact ⟨hmem, by simpa using hlt⟩
        · have := hack wire hwire
          exact .inr (by omega)
      · exact .inr hle

theorem Sends.turn {ev : MirrorEvent} (h : Sends setup bound c)
    (hack : ∀ bytes now, ev = .recv bytes now → ∀ pkt, deserialize cr.serverPacket bytes = .ok pkt →
      pkt.ackSeqNum ≤ bound)
    (ht : c.turn ev = some (c', out)) :
    Sends setup bound c' ∧ (∀ b ∈ out, FromSession setup c' b) ∧ c'.sessionId = c.sessionId ∧
      ∀ e ∈ c.issued, e ∈ c'.issued := by
  rcases MirrorSession.turn_cases ht with ⟨bytes, now, u, rfl, hr, hs⟩ | ⟨-, hs⟩
  · obtain ⟨hsend, hout⟩ := (h.received hr (hack bytes now rfl)).sent hs
    exact ⟨hsend, hout, hs.sessionId.trans hr.sessionId, fun e he => hs.mem_issued (hr.issued ▸ he)⟩
  · obtain ⟨hsend, hout⟩ := h.sent hs
    exact ⟨hsend, hout, hs.sessionId, fun e he => hs.mem_issued he⟩

theorem sends_new (setup : Setup) (bound sid seq cols rows : ℕ) (overlay : Bool) (start : Instant) :
    Sends setup bound (MirrorSession.new sid (ChaChaCodec.new cr setup.key sid) seq cols rows overlay
      start) :=
  ⟨⟨rfl, rfl, rfl⟩, .nil, by simp [MirrorSession.new], by simp [MirrorSession.new],
    by simp [MirrorSession.new], by simp [MirrorSession.new]⟩

/-! ### The server's turns -/

/-- A handshake opens as one, under its number. -/
theorem open_fromLoop (hcr : cr.Lawful) {sid k : ℕ} {b : Bytes} (h : FromLoop cr setup k b)
    {wire : EncryptedClientPacket} {p : ClientPayload} {st : CodecStats}
    (hopen : (ChaChaCodec.new cr setup.key sid).openClient b = .ok (wire, p, st)) :
    wire.sessionId = 0 ∧ 1 ≤ wire.seqNum ∧ wire.seqNum ≤ k := by
  obtain ⟨n, h1, hk, hb⟩ := h
  obtain ⟨ct, stats, hopen'⟩ := ChaChaCodec.openClient_sealClient hcr ⟨rfl, rfl, rfl⟩ (.inl rfl)
    ((sealClient_handshake (ChaChaCodec.new cr setup.key sid)).trans hb)
  rw [hopen] at hopen'
  cases hopen'
  exact ⟨rfl, h1, hk⟩

/-- A datagram of the client's session that opens as one of the server's is what the client sealed. -/
theorem open_fromSession (hcr : cr.Lawful) {sid : ℕ} {b : Bytes} (h : FromSession setup c b)
    {wire : EncryptedClientPacket} {p : ClientPayload} {st : CodecStats}
    (hopen : (ChaChaCodec.new cr setup.key sid).openClient b = .ok (wire, p, st))
    (h0 : wire.sessionId ≠ 0) (hsid : wire.sessionId = sid)
    (htrans : AuthoritativeSession.isTransient wire.seqNum p = false) :
    (wire.seqNum, p) ∈ c.issued := by
  obtain ⟨codec, q, ack, p', hk, hseal, hp⟩ := h
  have hwire : wire.sessionId = c.sessionId := by
    obtain ⟨plain, ct, -, -, hbytes⟩ := ChaChaCodec.sealClient_eq_ok hseal
    obtain ⟨wire', hwire, hrest⟩ := bind_eq_ok.mp hopen
    obtain ⟨m, -, hrest⟩ := bind_eq_ok.mp hrest
    obtain ⟨plain', -, hrest⟩ := bind_eq_ok.mp hrest
    obtain ⟨p'', -, hrest⟩ := bind_eq_ok.mp hrest
    cases hrest
    rw [deserialize_of_serialize hcr.clientPacket hbytes] at hwire
    cases hwire
    rfl
  rw [← hwire, hsid] at hseal hk
  obtain ⟨ct, stats, hopen'⟩ := ChaChaCodec.openClient_sealClient hcr hk (.inr rfl) hseal
  rw [hopen] at hopen'
  cases hopen'
  rcases hp with hp | rfl | ⟨f, m, rfl⟩
  · exact hp
  · simp [AuthoritativeSession.isTransient] at htrans
  · simp [AuthoritativeSession.isTransient] at htrans

variable {k : ℕ} {client : ClientPhase cr} {applied : List (ℕ × ClientPayload)}
  {s s' : AuthoritativeSession (ChaChaCodec cr) T}

theorem Takes.mono {k' : ℕ} {client' : ClientPhase cr} (h : Takes setup k client applied s) (hk : k ≤ k')
    (hi : ∀ e, Issued client e → Issued client' e) : Takes setup k' client' applied s := by
  obtain ⟨b, h1, hb, hack, hnum⟩ := h.stretch
  exact { h with
    stretch := ⟨b, h1, hb.trans hk, hack, hnum⟩
    held := fun n p hn => hi _ (h.held n p hn)
    issued := fun e he => hi e (h.issued e he) }

/-- While the client has no session, nothing was applied. -/
theorem Takes.nothing_applied (h : Takes setup k .connecting applied s) :
    applied = [] ∧ s.ackSeqNum ≤ k := by
  have hnil : applied = [] := by
    refine List.eq_nil_iff_forall_not_mem.mpr fun e he => ?_
    obtain ⟨c, hc, -⟩ := h.issued e he
    cases hc
  obtain ⟨b, -, hb, hack, hnum⟩ := h.stretch
  rw [hnil] at hnum
  have := congrArg List.length hnum
  simp only [List.map_nil, List.length_nil, List.length_range'] at this
  exact ⟨hnil, by omega⟩

/-- What opens as a packet of the session for its window was issued. -/
theorem Takes.issued_of_open (hcr : cr.Lawful) (h : Takes setup k client applied s) {bytes : Bytes}
    (hup : FromLoop cr setup k bytes ∨ ∃ c, client = .connected c ∧ FromSession setup c bytes)
    {wire : EncryptedClientPacket} {p : ClientPayload} {st : CodecStats}
    (hopen : PacketCodec.openClient s.codec bytes = .ok (wire, p, st)) (h0 : wire.sessionId ≠ 0)
    (hsid : wire.sessionId = s.sessionId)
    (htrans : AuthoritativeSession.isTransient wire.seqNum p = false) :
    Issued client (wire.seqNum, p) := by
  rw [h.codec] at hopen
  rcases hup with hb | ⟨c, hc, hb⟩
  · exact absurd (open_fromLoop hcr hb hopen).1 h0
  · exact ⟨c, hc, open_fromSession hcr hb hopen h0 (hsid.trans h.sessionId) htrans⟩

/-- Nothing is applied and the window stays where it is, though a packet may be put aside. -/
theorem Takes.stay (h : Takes setup k client applied s) (hcodec : s'.codec = s.codec)
    (hsid : s'.sessionId = s.sessionId) (hexp : s'.expectedClientSeq = s.expectedClientSeq)
    (hack : s'.ackSeqNum = s.ackSeqNum) (hcalls : s'.clientCalls = s.clientCalls)
    (hheld : ∀ (n : ℕ) (p : ClientPayload), s'.outOfOrderPackets[n]? = some p → Issued client (n, p)) :
    Takes setup k client applied s' := by
  refine ⟨hcodec.trans h.codec, hsid.trans h.sessionId, ?_, ?_, hheld, h.issued, hcalls.trans h.log⟩
  · rw [hexp, hack, h.next]
  · rw [hack]
    exact h.stretch

/-- A handshake of the loop that the server takes while the client has no session. -/
theorem Takes.restart (h : Takes setup k .connecting applied s) (hcodec : s'.codec = s.codec)
    (hsid : s'.sessionId = s.sessionId) {n : ℕ} (h1 : 1 ≤ n) (hn : n ≤ k)
    (hexp : s'.expectedClientSeq = n + 1) (hack : s'.ackSeqNum = n)
    (hheld : s'.outOfOrderPackets = ∅) (hcalls : s'.clientCalls = s.clientCalls) :
    Takes setup k .connecting applied s' := by
  refine ⟨hcodec.trans h.codec, hsid.trans h.sessionId, by rw [hexp, hack], ?_, by simp [hheld],
    h.issued, hcalls.trans h.log⟩
  rw [h.nothing_applied.1, hack]
  exact ⟨n, h1, hn, Nat.le_refl _, by simp⟩

/-- The expected packet moves the window over itself and the run behind it, and all of them are
    applied. -/
theorem Takes.advance (h : Takes setup k client applied s) (hcodec : s'.codec = s.codec)
    (hsid : s'.sessionId = s.sessionId) {p : ClientPayload} {ack : ℕ}
    (hp : Issued client (s.expectedClientSeq, p))
    (hexp : s'.expectedClientSeq = (s.advance ack).expectedClientSeq)
    (hack : s'.ackSeqNum = s'.expectedClientSeq - 1)
    (hheld : s'.outOfOrderPackets = (s.advance ack).outOfOrderPackets)
    (hcalls : s'.clientCalls = s.clientCalls ++ (s.packetsToProcess p).flatMap fun e => callsOf e.2) :
    Takes setup k client (applied ++ s.packetsToProcess p) s' ∧ s.ackSeqNum ≤ s'.ackSeqNum := by
  obtain ⟨b, h1, hb, hback, hnum⟩ := h.stretch
  have hnext := h.next
  obtain ⟨hnumbers, hlt⟩ := AuthoritativeSession.packetsToProcess_numbers s p ack
  rw [← hexp] at hnumbers hlt
  refine ⟨⟨hcodec.trans h.codec, hsid.trans h.sessionId, by omega, ⟨b, h1, hb, by omega, ?_⟩,
    fun n q hn => ?_, fun e he => ?_, ?_⟩, by omega⟩
  · have hrange := AuthoritativeSession.range'_append_of_le
      (show b + 1 ≤ s.ackSeqNum + 1 by omega) (show s.ackSeqNum + 1 ≤ s'.ackSeqNum + 1 by omega)
    rw [List.map_append, hnum, hnumbers, hnext,
      show s.ackSeqNum - b = s.ackSeqNum + 1 - (b + 1) by omega,
      show s'.expectedClientSeq = s'.ackSeqNum + 1 by omega, hrange]
    congr 1
    omega
  · rw [hheld] at hn
    exact h.held n q (AuthoritativeSession.held_of_advance hn)
  · rcases List.mem_append.mp he with he | he
    · exact h.issued e he
    · rcases AuthoritativeSession.mem_packetsToProcess he with rfl | he
      · exact hp
      · exact h.held e.1 e.2 he
  · rw [hcalls, h.log, List.flatMap_append]

variable [TerminalState T]

/-- STEP: a turn of the server's session applies the next numbers, or none. -/
theorem Takes.turn (hcr : cr.Lawful) (hshort : cr.SealsShort) (h : Takes setup k client applied s)
    (hrel : ∀ e, Issued client e → isReliable e.2 = true) {ev : SessionEvent}
    (hup : ∀ bytes src now echo, ev = .packet bytes src now echo →
      FromLoop cr setup k bytes ∨ ∃ c, client = .connected c ∧ FromSession setup c bytes)
    (hcalm : ∀ c, client = .connected c → s.displaces ev = false)
    {actions : List (SessionAction (ChaChaCodec cr))} (ht : s.turn ev = some (s', actions)) :
    Takes setup k client (applied ++ s.applies ev) s' ∧
      max k s.ackSeqNum ≤ max k s'.ackSeqNum := by
  obtain ⟨s₀, ha, he⟩ := AuthoritativeSession.turn_emits ht
  have hcodec := he.codec.trans ha.codec
  have hsessionId := he.sessionId.trans ha.sessionId
  have hintake := AuthoritativeSession.turn_intake
    (h.codec ▸ ChaChaCodec.sealServer_keepAlive hcr hshort _)
    (fun n p hn => hrel _ (h.held n p hn))
    (fun bytes src now echo wire p st hev hopen h0 hsid htrans =>
      hrel _ (h.issued_of_open hcr (hup bytes src now echo hev) hopen h0 hsid htrans)) ht
  cases hintake with
  | none happ hexp hack hheld hcalls =>
    rw [happ, List.append_nil, hack]
    exact ⟨h.stay hcodec hsessionId hexp hack hcalls (hheld ▸ h.held), Nat.le_refl _⟩
  | @reset bytes src now echo wire p st hev hopen h0 hguard happ hexp hack hheld hcalls =>
    rw [happ, List.append_nil, hack]
    cases client with
    | connecting =>
      have hle := h.nothing_applied.2
      rcases hup bytes src now echo hev with hloop | ⟨c, hc, -⟩
      · rw [h.codec] at hopen
        obtain ⟨-, hone, hk⟩ := open_fromLoop hcr hloop hopen
        exact ⟨h.restart hcodec hsessionId hone hk hexp hack hheld hcalls, by omega⟩
      · cases hc
    | connected c =>
      -- a handshake that does not displace the window carries the number before it
      have hseq : wire.seqNum + 1 = s.expectedClientSeq := by
        have := hcalm c rfl
        subst hev
        simp only [AuthoritativeSession.displaces, hopen, h0, hguard] at this
        simpa using this
      have hsame : wire.seqNum = s.ackSeqNum := Nat.succ.inj (hseq.trans h.next)
      refine ⟨h.stay hcodec hsessionId (hexp.trans hseq) (hack.trans hsame) hcalls ?_, by rw [hsame]⟩
      simp [hheld]
  | @early bytes src now echo wire p st hev hopen h0 hsid htrans happ hexp hack hheld hcalls =>
    rw [happ, List.append_nil, hack]
    refine ⟨h.stay hcodec hsessionId hexp hack hcalls fun n q hn => ?_, Nat.le_refl _⟩
    rw [hheld, TreeMap.getElem?_insert] at hn
    split at hn
    · rename_i heq
      rw [Nat.compare_eq_eq] at heq
      cases hn
      subst heq
      exact h.issued_of_open hcr (hup bytes src now echo hev) hopen h0 hsid htrans
    · exact h.held n q hn
  | @inOrder bytes src now echo wire p st hev hopen h0 hsid htrans hseq happ hexp hack hheld hcalls =>
    have hp := h.issued_of_open hcr (hup bytes src now echo hev) hopen h0 hsid htrans
    rw [hseq] at hp
    obtain ⟨htakes, hle⟩ := h.advance hcodec hsessionId hp hexp hack hheld hcalls
    rw [happ]
    exact ⟨htakes, max_le_max_left k hle⟩

/-! ### Steps of the world -/

/-- With the client connected, a session-0 packet gets past the server's guard and moves its window. -/
def displaces (w : World cr T) : WorldEvent → Bool
  | .deliverUp i src now echo =>
    match w.client, w.server, w.up[i]? with
    | .connected _, .serving s, some bytes => s.displaces (.packet bytes src now echo)
    | _, _, _ => false
  | _ => false

variable {w w' : World cr T}

omit [TerminalState T] in
theorem ackBound_serving (h : w.server = .serving s) : w.ackBound = max w.handshakeSeq s.ackSeqNum := by
  rw [ackBound, h]

omit [TerminalState T] in
theorem ackBound_attempt_le {n : ℕ} (hn : w.handshakeSeq ≤ n) :
    w.ackBound ≤ ({ w with handshakeSeq := n } : World cr T).ackBound := by
  unfold ackBound
  dsimp only
  split
  · omega
  · exact hn

omit [TerminalState T] in
/-- STEP: one more attempt of the handshake loop. -/
theorem Delivers.attempt (h : Delivers setup w) (hc : w.client = .connecting) {n : ℕ}
    (hn : w.handshakeSeq ≤ n) : Delivers setup (attempt setup { w with handshakeSeq := n }) := by
  have hbound := ackBound_attempt_le hn
  have hfresh : w.server = .waiting → Fresh setup (World.attempt setup { w with handshakeSeq := n }) := by
    intro hw
    obtain ⟨h₁, h₂, h₃, h₄, h₅, h₆⟩ := h.fresh hw
    exact Fresh.attempt ⟨h₁, h₂, h₃, h₄, h₅, h₆⟩
  have hone := h.first
  obtain ⟨out, heq, hout⟩ := attempt_eq setup { w with handshakeSeq := n }
  rw [heq] at hfresh ⊢
  refine ⟨Nat.le_trans hone hn, hfresh, fun b hb => ?_, fun c hc' => ?_, fun s hs => ?_,
    fun b hb pkt hp => (h.down b hb pkt hp).trans hbound, fun job hj => (h.jobs job hj).trans hbound⟩
  · rcases List.mem_append.mp hb with hb | hb
    · rcases h.up b hb with ⟨m, h1, hm, hb⟩ | ⟨c, hc', -⟩
      · exact .inl ⟨m, h1, hm.trans hn, hb⟩
      · rw [hc] at hc'
        cases hc'
    · exact .inl ⟨n, Nat.le_trans hone hn, Nat.le_refl _, hout b hb⟩
  · rw [hc] at hc'
    cases hc'
  · exact (h.server s hs).mono hn fun e => id

omit [TerminalState T] in
/-- STEP: the client's session begins, or takes a turn. -/
theorem Delivers.react (h : Delivers setup w) (hwait : w.server ≠ .waiting)
    (hold : ∀ c₀, w.client = .connected c₀ → c₀.sessionId = c'.sessionId ∧ ∀ e ∈ c₀.issued, e ∈ c'.issued)
    (hsend : Sends setup w.ackBound c') (hout : ∀ b ∈ out, FromSession setup c' b) :
    Delivers setup { w with client := .connected c', up := w.up ++ out } := by
  refine ⟨h.first, fun hw => absurd hw hwait, fun b hb => ?_, fun c hc => ?_, fun s hs => ?_, h.down,
    h.jobs⟩
  · rcases List.mem_append.mp hb with hb | hb
    · rcases h.up b hb with hb | ⟨c₀, hc₀, hb⟩
      · exact .inl hb
      · exact .inr ⟨c', rfl, hb.grow (hold c₀ hc₀).1.symm (hold c₀ hc₀).2⟩
    · exact .inr ⟨c', rfl, hout b hb⟩
  · cases hc
    exact hsend
  · refine (h.server s hs).mono (Nat.le_refl _) ?_
    rintro e ⟨c₀, hc₀, he⟩
    exact ⟨c', rfl, (hold c₀ hc₀).2 e he⟩

/-- STEP: the waiting server takes a handshake. -/
theorem Delivers.accept (hcr : cr.Lawful) (h : Delivers setup w) (hw : w.server = .waiting)
    {bytes : Bytes} {src : SocketAddr} {now : Instant} {hs : HandshakeResult} {reply : List Bytes}
    (hb : bytes ∈ w.up)
    (hh : waitForClientHandshake cr setup.cryptoHandshake setup.sessionId bytes src =
      some (some (hs, reply))) :
    Delivers setup { w with
      server := (startSession setup hs now : ServerPhase cr T), down := w.down ++ reply } := by
  have hf := h.fresh hw
  obtain ⟨n, h1, hn, hpacket⟩ : FromLoop cr setup w.handshakeSeq bytes := by
    rcases h.up bytes hb with hb | ⟨c, hc, -⟩
    · exact hb
    · rw [hf.client] at hc
      cases hc
  simp only [waitForClientHandshake, readHandshake_handshakePacket hcr hpacket] at hh
  obtain ⟨reply', hreply, heq⟩ := Option.map_eq_some_iff.mp hh
  obtain ⟨rfl, rfl⟩ := Prod.mk.inj (Option.some.inj heq)
  have hbound : ∀ phase : ServerPhase cr T, w.handshakeSeq ≤
      ({ w with server := phase } : World cr T).ackBound := by
    intro phase
    cases phase <;> simp [ackBound]
  refine ⟨h.first, fun hw' => absurd hw' (startSession_ne_waiting setup _ now), h.up,
    fun c hc => ?_, fun s hs => ?_,
    fun b hb pkt hpkt => ?_, fun job hj => ?_⟩
  · rw [hf.client] at hc
    cases hc
  · simp only [startSession] at hs
    split at hs
    · rename_i session hnew
      cases hs
      obtain ⟨t, -, hnew⟩ := bind_eq_ok.mp hnew
      cases hnew
      refine ⟨rfl, rfl, rfl, ⟨n, h1, hn, Nat.le_refl _, ?_⟩, by simp, ?_, ?_⟩
      · simp [hf.applied]
      · simp [hf.applied]
      · simp [hf.applied, AuthoritativeSession.clientCalls]
    · cases hs
  · simp only [hf.down, List.nil_append] at hb
    have hack : pkt.ackSeqNum = n := by
      have hacc := acceptReply_handshakeReply hcr hreply hb
      simp only [acceptReply, hpkt] at hacc
      split at hacc
      · assumption
      · cases hacc
    rw [hack]
    exact hn.trans (hbound _)
  · rw [hf.jobs] at hj
    cases hj

/-- STEP: a turn of the server's session. Its acks are the number before its window. -/
theorem Delivers.serve (hcr : cr.Lawful) (hshort : cr.SealsShort) (h : Delivers setup w)
    (hs : w.server = .serving s) {ev : SessionEvent} {actions : List (SessionAction (ChaChaCodec cr))}
    (ht : s.turn ev = some (s', actions))
    (hup : ∀ bytes src now echo, ev = .packet bytes src now echo → bytes ∈ w.up)
    (hcalm : ∀ c, w.client = .connected c → s.displaces ev = false) :
    Delivers setup { w with
      server := .serving s', down := w.down ++ datagramsOf actions
      jobs := w.jobs ++ jobsOf actions, applied := w.applied ++ s.applies ev } := by
  have hrel : ∀ e, Issued w.client e → isReliable e.2 = true := by
    rintro e ⟨c, hc, he⟩
    exact (h.client c hc).reliable e he
  obtain ⟨htakes, hle⟩ := (h.server s hs).turn hcr hshort hrel
    (fun bytes src now echo hev => h.up bytes (hup bytes src now echo hev)) hcalm ht
  have hbound : w.ackBound ≤ max w.handshakeSeq s'.ackSeqNum := by
    rw [ackBound_serving hs]
    exact hle
  obtain ⟨s₀, ha, he⟩ := AuthoritativeSession.turn_emits ht
  obtain ⟨calls, -, -, -, hack, hsend⟩ := he.calls
  refine ⟨h.first, by simp, h.up, fun c hc => (h.client c hc).mono hbound, fun t ht' => ?_,
    fun b hb pkt hpkt => ?_, fun job hj => ?_⟩
  · cases ht'
    exact htakes
  · rcases List.mem_append.mp hb with hb | hb
    · exact (h.down b hb pkt hpkt).trans hbound
    · obtain ⟨x, hx, ds, hseal, hmem⟩ := hsend b hb
      rw [ChaChaCodec.ackSeqNum_of_sealServer hcr hseal hmem hpkt, (hack x hx).1, ← he.ackSeqNum]
      exact Nat.le_max_right _ _
  · rcases List.mem_append.mp hj with hj | hj
    · exact (h.jobs job hj).trans hbound
    · rw [(he.jobs job hj).ackSeq]
      exact Nat.le_max_right _ _

omit [TerminalState T] in
/-- STEP: the shutdown packet acknowledges nothing. -/
theorem Delivers.shutdown (hcr : cr.Lawful) (h : Delivers setup w) (hs : w.server = .serving s) :
    Delivers setup { w with
      server := .serving s.prepareShutdown.1
      down := w.down ++ datagramsOf (actionsOf (s.prepareShutdown.2.map fun action => [action])) } := by
  have htakes := h.server s hs
  have hbound : w.ackBound = max w.handshakeSeq s.ackSeqNum := ackBound_serving hs
  refine ⟨h.first, by simp, h.up, fun c hc => (h.client c hc).mono hbound.le, fun t ht => ?_,
    fun b hb pkt hpkt => ?_, fun job hj => (h.jobs job hj).trans hbound.le⟩
  · cases ht
    exact ⟨htakes.1, htakes.2, htakes.3, htakes.4, htakes.5, htakes.6, htakes.7⟩
  · rcases List.mem_append.mp hb with hb | hb
    · exact (h.down b hb pkt hpkt).trans hbound.le
    · simp only [AuthoritativeSession.prepareShutdown, AuthoritativeSession.sealNext] at hb
      cases hseal : PacketCodec.sealServer s.codec (s.seqNum + 1) 0 .shutdown with
      | error e => simp [hseal, Except.map, actionsOf] at hb
      | ok ds =>
        simp only [hseal, Except.map, actionsOf, datagramsOf, List.filterMap_cons, List.filterMap_nil,
          List.mem_singleton] at hb
        obtain ⟨d, hd⟩ := List.getLast?_isSome.mpr (ChaChaCodec.sealServer_ne_nil hseal) |>
          Option.isSome_iff_exists.mp
        rw [hd, Option.getD_some] at hb
        rw [ChaChaCodec.ackSeqNum_of_sealServer hcr hseal (hb ▸ List.mem_of_getLast? hd) hpkt]
        exact Nat.zero_le _

/-- STEP: as long as no handshake moves the window under a connected client, the invariant stays. -/
theorem Delivers.step (hcr : cr.Lawful) (hshort : cr.SealsShort) (h : Delivers setup w)
    {ev : WorldEvent} (hcalm : w.displaces ev = false) (hstep : w.step setup ev = some w') :
    Delivers setup w' := by
  cases step_moves hstep with
  | stay => exact h
  | attempt hc hn => exact h.attempt hc hn
  | connect hc hb _ ht =>
    have hwait : w.server ≠ .waiting := fun hw => by
      rw [(h.fresh hw).down] at hb
      cases hb
    obtain ⟨hsend, hout, -, -⟩ := (sends_new setup w.ackBound _ _ _ _ _ _).turn (by simp) ht
    exact h.react hwait (fun c₀ hc₀ => by rw [hc] at hc₀; cases hc₀) hsend hout
  | react hc ht hev =>
    have hwait : w.server ≠ .waiting := fun hw => by
      rw [(h.fresh hw).client] at hc
      cases hc
    obtain ⟨hsend, hout, hsid, hgrow⟩ := (h.client _ hc).turn
      (fun bytes now heq => h.down bytes (hev bytes now heq)) ht
    refine h.react hwait (fun c₀ hc₀ => ?_) hsend hout
    rw [hc] at hc₀
    cases hc₀
    exact ⟨hsid.symm, hgrow⟩
  | accept hs _ hb hh => exact h.accept hcr hs (List.mem_of_getElem? hb) hh
  | serve hs ht hev =>
    refine h.serve hcr hshort hs ht (fun bytes src now echo heq => ?_) fun c hc => ?_
    · obtain ⟨i, -, hi⟩ := hev bytes src now echo heq
      exact List.mem_of_getElem? hi
    · rename_i s s' actions sev
      cases sev with
      | packet bytes src now echo =>
        obtain ⟨i, rfl, hi⟩ := hev bytes src now echo rfl
        simpa [World.displaces, hc, hs, hi] using hcalm
      | _ => rfl
  | runJob hj =>
    refine ⟨h.first, fun hw => ?_, h.up, h.client, h.server, fun b hb pkt hpkt => ?_, h.jobs⟩
    · rw [(h.fresh hw).jobs] at hj
      cases hj
    · rcases List.mem_append.mp hb with hb | hb
      · exact h.down b hb pkt hpkt
      · obtain ⟨update, ds, -, hseal, hmem⟩ := mem_jobDatagrams hb
        rw [ChaChaCodec.ackSeqNum_of_sealServer hcr hseal hmem hpkt]
        exact h.jobs _ hj
  | shutdown hs => exact h.shutdown hcr hs

omit [TerminalState T] in
theorem delivers_start (setup : Setup) : Delivers setup (start setup : World cr T) := by
  have hinit : Delivers setup (initial : World cr T) :=
    ⟨Nat.le_refl 1, fun _ => fresh_initial setup, by simp [initial], by rintro c ⟨⟩, by rintro s ⟨⟩,
      by simp [initial], by simp [initial]⟩
  exact hinit.attempt rfl (Nat.le_refl 1)

/-- NO LOST INPUT: over any network, as long as no handshake moves the server's window under a connected
    client, the server applies consecutive numbers, each once and with the payload the client issued under
    it; they begin after a handshake number `b`. A packet the client no longer keeps has been applied if
    its number is above that of the handshake that connected it; the first `b` never are. -/
theorem inputs_delivered (hcr : cr.Lawful) (hshort : cr.SealsShort) (setup : Setup)
    {events : List WorldEvent} (hrun : runFrom (step setup) (start setup) events = some w)
    (hcalm : StepsMeet (step setup) (fun w ev => w.displaces ev = false) (start setup : World cr T)
      events)
    (hc : w.client = .connected c) (hs : w.server = .serving s) :
    ∃ b, 1 ≤ b ∧ b ≤ w.handshakeSeq ∧
      w.applied.map Prod.fst = List.range' (b + 1) (s.ackSeqNum - b) ∧
      (∀ e ∈ w.applied, e ∈ c.issued) ∧
      s.clientCalls = (w.applied.flatMap fun e => callsOf e.2) ∧
      ∀ e ∈ c.issued, e.1 ∉ c.unackedPackets →
        (w.handshakeSeq < e.1 → e ∈ w.applied) ∧ (e.1 ≤ b → e ∉ w.applied) := by
  have h : Delivers setup w := run_invariant (fun _ _ _ h hcalm hstep => h.step hcr hshort hcalm hstep)
    events (delivers_start setup) hcalm hrun
  have htakes := h.server s hs
  have hsends := h.client c hc
  have hissued : ∀ e ∈ w.applied, e ∈ c.issued := by
    intro e he
    obtain ⟨c', hc', he⟩ := htakes.issued e he
    rw [hc] at hc'
    cases hc'
    exact he
  obtain ⟨b, h1, hb, hback, hnum⟩ := htakes.stretch
  refine ⟨b, h1, hb, hnum, hissued, htakes.log, fun e he hgone => ⟨fun hk => ?_, fun hle happ => ?_⟩⟩
  · have hbound : e.1 ≤ max w.handshakeSeq s.ackSeqNum := by
      rw [← ackBound_serving hs]
      exact (hsends.acked e he).resolve_left hgone
    have hmem : e.1 ∈ w.applied.map Prod.fst := by
      rw [hnum, List.mem_range'_1]
      omega
    obtain ⟨e', he', heq⟩ := List.mem_map.mp hmem
    -- the number has one payload
    have hinj : (c.issued.map Prod.fst).Nodup :=
      (List.pairwise_map.mpr hsends.sorted).imp fun hlt => Nat.ne_of_lt hlt
    rw [← List.inj_on_of_nodup_map hinj (hissued e' he') he heq]
    exact he'
  · have hmem := List.mem_map_of_mem (f := Prod.fst) happ
    rw [hnum, List.mem_range'_1] at hmem
    omega

/-- The second packet, a keystroke, is applied and acknowledged. -/
theorem inputs_delivered_keystroke :
    ∃ (w : World Bincode.crates TextTerminal) (c : MirrorSession (ChaChaCodec Bincode.crates))
      (s : AuthoritativeSession (ChaChaCodec Bincode.crates) TextTerminal),
      runFrom (step ⟨zeroKey, someId, 2, 1, false⟩) (start ⟨zeroKey, someId, 2, 1, false⟩)
        [.deliverUp 0 ⟨0, 0⟩ 0 false, .reply 0 2 1 0 0, .stdin [0x61] 0,
          .deliverUp 2 ⟨0, 0⟩ (millis 20) true, .runJob 0, .deliverDown 1 (millis 40)] = some w ∧
      w.client = .connected c ∧ w.server = .serving s ∧
      (2, .keystrokes [0x61]) ∈ c.issued ∧ 2 ∉ c.unackedPackets ∧
      (2, .keystrokes [0x61]) ∈ w.applied := by
  obtain ⟨w, c, s, hw, hc, hs, hi, hu, hm⟩ :
    ∃ (w : World Bincode.crates TextTerminal) (c : MirrorSession (ChaChaCodec Bincode.crates))
      (s : AuthoritativeSession (ChaChaCodec Bincode.crates) TextTerminal),
      runFrom (step ⟨zeroKey, someId, 2, 1, false⟩) (start ⟨zeroKey, someId, 2, 1, false⟩)
        [.deliverUp 0 ⟨0, 0⟩ 0 false, .reply 0 2 1 0 0, .stdin [0x61] 0,
          .deliverUp 2 ⟨0, 0⟩ (millis 20) true, .runJob 0, .deliverDown 1 (millis 40)] = some w ∧
      w.client = .connected c ∧ w.server = .serving s ∧
      (2, .keystrokes [0x61]) ∈ c.issued ∧ 2 ∉ c.unackedPackets ∧ w.handshakeSeq = 1 :=
    ⟨_, _, _, rfl, rfl, rfl, by decide +kernel, by decide +kernel, rfl⟩
  obtain ⟨b, -, -, -, -, -, happ⟩ := inputs_delivered Bincode.crates_lawful Bincode.crates_sealsShort
    _ hw (by decide +kernel) hc hs
  exact ⟨w, c, s, hw, hc, hs, hi, hu, (happ _ hi hu).1 (by rw [hm]; decide)⟩

/-- The initial resize is packet 1. The server's first frame acknowledges it before it has arrived, the
    client stops resending it, and when it arrives it is dropped as a duplicate. -/
theorem initial_resize_lost :
    ∃ (w : World Bincode.crates TextTerminal) (c : MirrorSession (ChaChaCodec Bincode.crates))
      (s : AuthoritativeSession (ChaChaCodec Bincode.crates) TextTerminal),
      runFrom (step ⟨zeroKey, someId, 2, 1, false⟩) (start ⟨zeroKey, someId, 2, 1, false⟩)
        [.deliverUp 0 ⟨0, 0⟩ 0 false, .reply 0 2 1 0 0, .serverTick 0 true, .runJob 0,
          .deliverDown 1 (millis 20), .deliverUp 1 ⟨0, 0⟩ (millis 40) true] = some w ∧
      w.client = .connected c ∧ w.server = .serving s ∧
      ∃ e ∈ c.issued, e = (1, .resize 2 1) ∧ e.1 ∉ c.unackedPackets ∧ e ∉ w.applied ∧
        s.clientCalls = [] :=
  ⟨_, _, _, rfl, rfl, rfl, (1, .resize 2 1), by decide +kernel, rfl, by decide +kernel,
    by decide +kernel, by decide +kernel⟩

end World

end Rumsh.System
