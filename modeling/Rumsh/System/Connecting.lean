import Rumsh.Client.Panics
import Rumsh.System.Agreement
import Rumsh.System.Inputs

/-! Which datagram connects a client.

    The waiting server answers one handshake, number `k`, and serves from then on. Its answer is the first
    datagram it sends, and the only one the client's test ever accepts: what the session seals carries
    another salt. So a client is connected exactly if that answer arrives while the client still waits at
    attempt `k`; one that has timed out by then has no way in, whatever it sends and whatever arrives. -/

namespace Rumsh.System
open Rumsh.Schemes Rumsh.Protocol Rumsh.Server Rumsh.Client

/-! ### The client's test -/

section Test
variable {cr : Crates} {key : Key} {sid n : ℕ} {d : Bytes}

/-- What the session seals fails the client's test, if its salt is its own and no piece of it opens. -/
theorem acceptReply_session (hcr : cr.Lawful) (hw : HandshakeWire cr)
    (hsalt : (CryptoManager.new key sid).salt ≠ 0) {seq ack : ℕ} (hseq : seq < 2 ^ 64)
    {payload : ServerPayload} {datagrams : List Bytes}
    (h : (ChaChaCodec.new cr key sid).sealServer seq ack payload = .ok datagrams)
    (hmax : datagrams.length ≤ 65535) (hd : d ∈ datagrams)
    (hpieces : ∀ pkt, deserialize cr.serverPacket d = .ok pkt → pkt.totalFrags ≠ 1 →
      cr.aeadDecrypt key ⟨0, pkt.seqNum⟩ pkt.ciphertext = none) :
    acceptReply cr (CryptoManager.new key 0) n d = none := by
  obtain ⟨plain, ct, -, hct, hmap⟩ := ChaChaCodec.sealServer_eq_ok h
  obtain ⟨pkt, hmem, hpkt⟩ := ChaChaCodec.deserialize_mem_fragmentPackets hcr hmap hd
  have hnone : cr.aeadDecrypt key ⟨0, pkt.seqNum⟩ pkt.ciphertext = none := by
    by_cases hlong : FRAGMENT_PAYLOAD_SIZE < ct.length
    · have hcount : fragmentCount ct = datagrams.length := by
        rw [← length_fragmentPackets hlong, ChaChaCodec.length_of_mapM hmap]
      rcases (mem_fragmentPackets (hcount ▸ hmax)).mp hmem with ⟨hle, -⟩ | ⟨-, i, -, rfl⟩
      · exact absurd hlong (Nat.not_lt.mpr hle)
      · refine hpieces _ hpkt fun hone => ?_
        have htwo : 2 ≤ fragmentCount ct := by
          unfold fragmentCount chunkCount FRAGMENT_PAYLOAD_SIZE at *
          omega
        exact absurd hone (Nat.ne_of_gt htwo)
    · rw [fragmentPackets, if_pos (Nat.not_lt.mp hlong)] at hmem
      obtain rfl := List.mem_singleton.mp hmem
      exact hw.aeadDecrypt_otherNonce key _ ⟨0, seq⟩ _ _ ⟨Nat.mod_lt _ (by decide), hseq⟩
        ⟨Nat.two_pow_pos 32, hseq⟩ (fun heq => hsalt (congrArg Nonce.salt heq)) (okOr_eq_ok.mp hct)
  have hdec : (CryptoManager.new key 0).decrypt cr pkt.seqNum pkt.ciphertext = .error .decryption := by
    simp [CryptoManager.decrypt, CryptoManager.makeNonce, CryptoManager.new, hnone]
  simp [acceptReply, hpkt, hdec]

/-- The reply passes the test of its own attempt only. -/
theorem acceptReply_handshakeReply_iff (hcr : cr.Lawful) {crypto : CryptoManager} {k : ℕ}
    (h : handshakeReply cr crypto sid k = some [d]) {x : ℕ × ℕ} :
    acceptReply cr crypto n d = some x ↔ n = k ∧ x = (sid, replySeq) := by
  have hown := acceptReply_handshakeReply hcr h (List.mem_singleton_self d)
  by_cases hn : n = k
  · subst hn
    rw [hown]
    simp [eq_comm]
  · refine iff_of_false (fun hx => ?_) fun hand => hn hand.1
    unfold acceptReply at hx hown
    split at hown
    · cases hown
    · rename_i pkt hpkt
      split at hown
      · rename_i hack
        rw [hpkt] at hx
        dsimp only at hx
        rw [if_neg fun heq => hn (heq.symm.trans hack)] at hx
        cases hx
      · cases hown

end Test

/-! ### After the server's answer -/

namespace World
variable {cr : Crates} {T : Type} {setup : Setup} {w w' : World cr T}

/-- The session's salt is not that of the handshake, and no payload needs more fragments than a header
    can count. -/
structure Separate (cr : Crates) (setup : Setup) : Prop where
  lawful : cr.Lawful
  wire : HandshakeWire cr
  salt : (CryptoManager.new setup.key setup.sessionId).salt ≠ 0
  fits : ∀ seq ack payload datagrams, (ChaChaCodec.new cr setup.key setup.sessionId).sealServer
    seq ack payload = .ok datagrams → datagrams.length ≤ 65535

/-- A datagram the server's session has sealed. -/
def FromServing (setup : Setup) (w : World cr T) (b : Bytes) : Prop :=
  ∃ s seq ack payload datagrams, w.server = .serving s ∧ seq ≤ s.seqNum ∧
    (ChaChaCodec.new cr setup.key setup.sessionId).sealServer seq ack payload = .ok datagrams ∧
    b ∈ datagrams

/-- The server has answered handshake `k` with `d`, and sealed the rest of what it sent. -/
structure AfterAnswer (setup : Setup) (d : Bytes) (k : ℕ) (w : World cr T) : Prop where
  server : w.server ≠ .waiting
  codec : ∀ s, w.server = .serving s → s.codec = ChaChaCodec.new cr setup.key setup.sessionId
  jobs : ∀ job ∈ w.jobs, job.codec = ChaChaCodec.new cr setup.key setup.sessionId ∧
    ∃ s, w.server = .serving s ∧ job.seq ≤ s.seqNum
  down : ∃ rest, w.down = d :: rest ∧ ∀ b ∈ rest, FromServing setup w b
  client : ∀ c, w.client = .connected c → c.sessionId = setup.sessionId ∧ w.handshakeSeq = k

/-- The last number the server's session has taken. -/
def lastNumber (w : World cr T) : ℕ :=
  match w.server with
  | .serving s => s.seqNum
  | _ => 0

/-- The server has not counted to 2^64, and no piece of a frame opens by itself under the handshake's
    nonces. -/
def Proper (setup : Setup) (w : World cr T) : Prop :=
  w.lastNumber < 2 ^ 64 ∧ ∀ b ∈ w.down, ∀ pkt ∈ (deserialize cr.serverPacket b).toOption,
    pkt.totalFrags ≠ 1 → cr.aeadDecrypt setup.key ⟨0, pkt.seqNum⟩ pkt.ciphertext = none

instance (setup : Setup) (w : World cr T) : Decidable (Proper setup w) :=
  inferInstanceAs (Decidable (_ ∧ _))

/-- The server's answer arrives at attempt `k`. -/
def hears (k : ℕ) (w : World cr T) : WorldEvent → Bool
  | .reply i _ _ _ _ => i == 0 && w.handshakeSeq == k
  | _ => false

def isConnected (w : World cr T) : Bool :=
  match w.client with
  | .connected _ => true
  | .connecting => false

theorem lastNumber_serving {s : AuthoritativeSession (ChaChaCodec cr) T} (h : w.server = .serving s) :
    w.lastNumber = s.seqNum := by
  rw [lastNumber, h]

/-- A session that has gone on seals under the same codec, and has counted on. -/
theorem FromServing.grow {b : Bytes} (h : FromServing setup w b)
    (hs : ∀ s, w.server = .serving s → ∃ s', w'.server = .serving s' ∧ s.seqNum ≤ s'.seqNum) :
    FromServing setup w' b := by
  obtain ⟨s, seq, ack, payload, datagrams, hserving, hseq, hseal, hb⟩ := h
  obtain ⟨s', hs', hle⟩ := hs s hserving
  exact ⟨s', seq, ack, payload, datagrams, hs', hseq.trans hle, hseal, hb⟩

variable [TerminalState T] {d : Bytes} {k : ℕ} {ev : WorldEvent}

omit [TerminalState T] in
/-- What the client's test makes of the datagrams of an answered world. -/
theorem AfterAnswer.acceptReply (ha : Separate cr setup)
    (hd : handshakeReply cr setup.cryptoHandshake setup.sessionId k = some [d])
    (h : AfterAnswer setup d k w) (hp : Proper setup w) {i : ℕ} {b : Bytes} (hb : w.down[i]? = some b)
    {x : ℕ × ℕ} : acceptReply cr setup.cryptoHandshake w.handshakeSeq b = some x ↔
      (i = 0 ∧ w.handshakeSeq = k) ∧ x = (setup.sessionId, replySeq) := by
  obtain ⟨rest, hdown, hrest⟩ := h.down
  rw [hdown] at hb
  cases i with
  | zero =>
    obtain rfl := Option.some.inj hb
    rw [acceptReply_handshakeReply_iff ha.lawful hd]
    simp
  | succ i =>
    have hmem : b ∈ rest := List.mem_of_getElem? hb
    obtain ⟨s, seq, ack, payload, datagrams, hs, hseq, hseal, hin⟩ := hrest b hmem
    have hnone := acceptReply_session (n := w.handshakeSeq) ha.lawful ha.wire ha.salt
      (hseq.trans_lt (lastNumber_serving hs ▸ hp.1)) hseal (ha.fits _ _ _ _ hseal) hin fun pkt hpkt =>
        hp.2 b (by rw [hdown]; exact List.mem_cons_of_mem _ hmem) pkt (by rw [hpkt]; rfl)
    have hnone : Client.acceptReply cr setup.cryptoHandshake w.handshakeSeq b = none := hnone
    rw [hnone]
    simp

/-- STEP: the server goes on sealing, and a client that is connected has heard the answer. -/
theorem AfterAnswer.step (ha : Separate cr setup)
    (hd : handshakeReply cr setup.cryptoHandshake setup.sessionId k = some [d])
    (h : AfterAnswer setup d k w) (hp : Proper setup w) (hstep : w.step setup ev = some w') :
    AfterAnswer setup d k w' := by
  have hgrow : ∀ {b : Bytes} {rest : List Bytes}, (∀ b ∈ rest, FromServing setup w b) →
      (∀ s, w.server = .serving s → ∃ s', w'.server = .serving s' ∧ s.seqNum ≤ s'.seqNum) →
      b ∈ rest → FromServing setup w' b := fun hrest hs hb => (hrest _ hb).grow hs
  obtain ⟨rest, hdown, hrest⟩ := h.down
  cases step_moves hstep with
  | stay => exact h
  | attempt hc hn =>
    obtain ⟨out, heq, -⟩ := attempt_eq setup { w with handshakeSeq := _ }
    rw [heq]
    refine ⟨h.server, h.codec, h.jobs, ⟨rest, hdown, hrest⟩, fun c hc' => ?_⟩
    rw [hc] at hc'
    cases hc'
  | connect hc hb hacc ht =>
    refine ⟨h.server, h.codec, h.jobs, ⟨rest, hdown, hrest⟩, fun c hc' => ?_⟩
    obtain rfl := ClientPhase.connected.inj hc'
    obtain ⟨i, hi⟩ := List.mem_iff_getElem?.mp hb
    obtain ⟨⟨-, hk⟩, hx⟩ := (h.acceptReply ha hd hp hi).mp hacc
    obtain ⟨-, -, hsid, -⟩ := (sends_new setup 0 _ _ _ _ _ _).turn (by simp) ht
    exact ⟨hsid.trans (congrArg Prod.fst hx), hk⟩
  | react hc ht hev =>
    refine ⟨h.server, h.codec, h.jobs, ⟨rest, hdown, hrest⟩, fun c hc' => ?_⟩
    obtain rfl := ClientPhase.connected.inj hc'
    obtain ⟨hsid, hk⟩ := h.client _ hc
    refine ⟨?_, hk⟩
    rcases MirrorSession.turn_cases ht with ⟨_, _, u, -, hr, hs⟩ | ⟨-, hs⟩
    · exact (hs.sessionId.trans hr.sessionId).trans hsid
    · exact hs.sessionId.trans hsid
  | accept hs => exact absurd hs h.server
  | serve hs ht hev =>
    rename_i s s' actions sev
    obtain ⟨s₀, harr, he⟩ := AuthoritativeSession.turn_emits ht
    obtain ⟨calls, -, -, hrange, -, hsend⟩ := he.calls
    have hcodec : s₀.codec = ChaChaCodec.new cr setup.key setup.sessionId := harr.codec.trans (h.codec s hs)
    have hle : s.seqNum ≤ s'.seqNum := harr.seqNum ▸ he.seqNum
    have hserving : ∀ t, w.server = .serving t → ∃ t', (ServerPhase.serving s' : ServerPhase cr T) =
        .serving t' ∧ t.seqNum ≤ t'.seqNum := by
      intro t ht
      obtain rfl := ServerPhase.serving.inj (hs.symm.trans ht)
      exact ⟨s', rfl, hle⟩
    refine ⟨by simp, fun t ht => ?_, fun job hj => ?_, ⟨rest ++ datagramsOf actions, ?_, fun b hb => ?_⟩,
      h.client⟩
    · obtain rfl := ServerPhase.serving.inj ht
      exact he.codec.trans hcodec
    · rcases List.mem_append.mp hj with hj | hj
      · obtain ⟨hjc, t, ht, hseq⟩ := h.jobs job hj
        obtain ⟨t', ht', hle'⟩ := hserving t ht
        exact ⟨hjc, t', ht', hseq.trans hle'⟩
      · have hof := he.jobs job hj
        exact ⟨hof.codec.trans (he.codec.trans hcodec), s', rfl, hof.seq.le⟩
    · rw [hdown, List.cons_append]
    · rcases List.mem_append.mp hb with hb | hb
      · exact hgrow hrest hserving hb
      · obtain ⟨x, hx, ds, hseal, hmem⟩ := hsend b hb
        rw [hcodec] at hseal
        exact ⟨s', x.1, x.2.1, x.2.2, ds, rfl,
          (hrange _ (List.mem_append_left _ (List.mem_map_of_mem hx))).2, hseal, hmem⟩
  | runJob hj =>
    rename_i job
    refine ⟨h.server, h.codec, h.jobs, ⟨rest ++ jobDatagrams job, ?_, fun b hb => ?_⟩, h.client⟩
    · rw [hdown, List.cons_append]
    · rcases List.mem_append.mp hb with hb | hb
      · exact hrest b hb
      · obtain ⟨hjc, s, hs, hseq⟩ := h.jobs _ hj
        obtain ⟨update, ds, -, hseal, hmem⟩ := mem_jobDatagrams hb
        rw [hjc] at hseal
        exact ⟨s, _, _, _, ds, hs, hseq, hseal, hmem⟩
  | shutdown hs =>
    rename_i s
    have hserving : ∀ t, w.server = .serving t → ∃ t', (ServerPhase.serving s.prepareShutdown.1 :
        ServerPhase cr T) = .serving t' ∧ t.seqNum ≤ t'.seqNum := by
      intro t ht
      obtain rfl := ServerPhase.serving.inj (hs.symm.trans ht)
      exact ⟨_, rfl, Nat.le_succ _⟩
    refine ⟨by simp, fun t ht => ?_, fun job hj => ?_, ⟨rest ++
      datagramsOf (actionsOf (s.prepareShutdown.2.map fun action => [action])), ?_, fun b hb => ?_⟩, h.client⟩
    · obtain rfl := ServerPhase.serving.inj ht
      exact h.codec s hs
    · obtain ⟨hjc, t, ht, hseq⟩ := h.jobs job hj
      obtain ⟨t', ht', hle'⟩ := hserving t ht
      exact ⟨hjc, t', ht', hseq.trans hle'⟩
    · rw [hdown, List.cons_append]
    · rcases List.mem_append.mp hb with hb | hb
      · exact hgrow hrest hserving hb
      · obtain ⟨ds, hseal, hlast⟩ := mem_prepareShutdown hb
        rw [h.codec s hs] at hseal
        exact ⟨_, _, _, _, ds, rfl, Nat.le_refl _, hseal, List.mem_of_getLast? hlast⟩

omit [TerminalState T] in
theorem react_isConnected {cev : MirrorEvent} (h : w.react cev = some w') :
    w'.isConnected = w.isConnected ∧ w'.handshakeSeq = w.handshakeSeq := by
  unfold react at h
  split at h
  · cases h
    exact ⟨rfl, rfl⟩
  · rename_i c hc
    obtain ⟨_, _, rfl⟩ := Option.map_eq_some_iff.mp h
    exact ⟨by rw [isConnected, isConnected, hc], rfl⟩

theorem serve_isConnected {sev : SessionEvent} (h : w.serve sev = some w') :
    w'.isConnected = w.isConnected ∧ w'.handshakeSeq = w.handshakeSeq := by
  unfold serve at h
  split at h
  · obtain ⟨_, _, rfl⟩ := Option.map_eq_some_iff.mp h
    exact ⟨rfl, rfl⟩
  · cases h
    exact ⟨rfl, rfl⟩

omit [TerminalState T] in
theorem attempt_isConnected (setup : Setup) (w : World cr T) :
    (attempt setup w).isConnected = w.isConnected ∧ (attempt setup w).handshakeSeq = w.handshakeSeq := by
  obtain ⟨out, heq, -⟩ := attempt_eq setup w
  rw [heq]
  exact ⟨rfl, rfl⟩

/-- STEP: a client is connected by the answer, at the attempt it answers; attempts are counted up. -/
theorem AfterAnswer.isConnected_step (ha : Separate cr setup)
    (hd : handshakeReply cr setup.cryptoHandshake setup.sessionId k = some [d])
    (h : AfterAnswer setup d k w) (hp : Proper setup w) (hstep : w.step setup ev = some w') :
    (w'.isConnected = true ↔ w.isConnected = true ∨ w.hears k ev = true) ∧
      w.handshakeSeq ≤ w'.handshakeSeq := by
  have hsame : w'.isConnected = w.isConnected ∧ w'.handshakeSeq = w.handshakeSeq →
      w.hears k ev = false → (w'.isConnected = true ↔ w.isConnected = true ∨ w.hears k ev = true) ∧
        w.handshakeSeq ≤ w'.handshakeSeq := by
    rintro ⟨hconn, hseq⟩ hno
    rw [hconn, hno]
    simp [hseq]
  cases ev with
  | timeout =>
    simp only [World.step] at hstep
    split at hstep
    · cases hstep
      obtain ⟨hconn, hseq⟩ := attempt_isConnected setup { w with handshakeSeq := w.handshakeSeq + 1 }
      rw [hconn, hseq]
      exact ⟨by simp [isConnected, hears], Nat.le_succ _⟩
    · cases hstep
      exact hsame ⟨rfl, rfl⟩ rfl
  | reply i cols rows start now =>
    simp only [World.step] at hstep
    split at hstep
    · rename_i b hc hb
      have htest := fun x => h.acceptReply ha hd hp hb (x := x)
      split at hstep
      · rename_i sid seq hacc
        obtain ⟨⟨rfl, hk⟩, -⟩ := (htest _).mp hacc
        obtain ⟨⟨c, out⟩, -, rfl⟩ := Option.map_eq_some_iff.mp hstep
        exact ⟨by simp [isConnected, hears, hk], Nat.le_refl _⟩
      · rename_i hacc
        cases hstep
        obtain ⟨hconn, hseq⟩ := attempt_isConnected setup w
        refine hsame ⟨hconn, hseq⟩ (Bool.eq_false_iff.mpr fun hh => ?_)
        simp only [hears, Bool.and_eq_true, beq_iff_eq] at hh
        rw [(htest _).mpr ⟨hh, rfl⟩] at hacc
        cases hacc
    · rename_i hno
      cases hstep
      refine ⟨⟨.inl, fun hor => hor.elim id fun hh => ?_⟩, Nat.le_refl _⟩
      -- the answer is there, so the client is no longer connecting
      simp only [hears, Bool.and_eq_true, beq_iff_eq] at hh
      obtain ⟨rest, hdown, -⟩ := h.down
      cases hc : w.client with
      | connected c => simp [isConnected, hc]
      | connecting => exact absurd (by rw [hdown, hh.1]; rfl) (hno d hc)
  | deliverDown i now =>
    simp only [World.step] at hstep
    split at hstep
    · exact hsame (react_isConnected hstep) rfl
    · cases hstep
      exact hsame ⟨rfl, rfl⟩ rfl
  | stdin buf now => exact hsame (react_isConnected hstep) rfl
  | winch cols rows now => exact hsame (react_isConnected hstep) rfl
  | clientTick now => exact hsame (react_isConnected hstep) rfl
  | paint dest => exact hsame (react_isConnected hstep) rfl
  | deliverUp i src now echo =>
    simp only [World.step] at hstep
    split at hstep
    · unfold receive at hstep
      split at hstep
      · rename_i hwait
        exact absurd hwait h.server
      · exact hsame (serve_isConnected hstep) rfl
    · cases hstep
      exact hsame ⟨rfl, rfl⟩ rfl
  | ptyBytes data now => exact hsame (serve_isConnected hstep) rfl
  | serverTick now echo => exact hsame (serve_isConnected hstep) rfl
  | runJob i =>
    simp only [World.step] at hstep
    split at hstep <;> cases hstep <;> exact hsame ⟨rfl, rfl⟩ rfl
  | shutdown =>
    cases hstep
    refine hsame ?_ rfl
    unfold sendShutdown
    split <;> exact ⟨rfl, rfl⟩

/-- RUN: a client that was not connected before is connected exactly if it hears the answer. -/
theorem AfterAnswer.run (ha : Separate cr setup)
    (hd : handshakeReply cr setup.cryptoHandshake setup.sessionId k = some [d]) :
    ∀ {events : List WorldEvent} {w w' : World cr T}, AfterAnswer setup d k w →
      StepsMeet (World.step setup) (fun u _ => Proper setup u) w events →
      runFrom (World.step setup) w events = some w' →
      AfterAnswer setup d k w' ∧ w.handshakeSeq ≤ w'.handshakeSeq ∧ (w'.isConnected = false ↔
        w.isConnected = false ∧ StepsMeet (World.step setup) (fun u ev => u.hears k ev = false) w events)
  | [], w, w', h, _, hrun => by
      cases hrun
      exact ⟨h, Nat.le_refl _, by simp [StepsMeet]⟩
  | ev :: events, w, w', h, hmeet, hrun => by
      obtain ⟨u, hu, hrun⟩ := Option.bind_eq_some_iff.mp hrun
      obtain ⟨hconn, hle⟩ := h.isConnected_step ha hd hmeet.1 hu
      obtain ⟨hend, hle', hiff⟩ := AfterAnswer.run ha hd (h.step ha hd hmeet.1 hu) (hmeet.2 u hu) hrun
      refine ⟨hend, hle.trans hle', hiff.trans ?_⟩
      have hnot : u.isConnected = false ↔ w.isConnected = false ∧ w.hears k ev = false := by
        rw [← Bool.not_eq_true, hconn, not_or, Bool.not_eq_true, Bool.not_eq_true]
      rw [hnot]
      constructor
      · rintro ⟨⟨hw, hev⟩, hrest⟩
        refine ⟨hw, hev, fun u' hu' => ?_⟩
        obtain rfl := Option.some.inj (hu.symm.trans hu')
        exact hrest
      · rintro ⟨hw, hev, hrest⟩
        exact ⟨⟨hw, hev⟩, hrest u hu⟩

/-! ### From the start -/

/-- Before the server has answered, what the client has sent is its attempts so far. -/
structure Attempting (setup : Setup) (w : World cr T) : Prop where
  fresh : Fresh setup w
  up : ∀ b ∈ w.up, ∃ n ≤ w.handshakeSeq,
    handshakePacket cr setup.cryptoHandshake n setup.cols setup.rows = .ok b

omit [TerminalState T] in
theorem Attempting.attempt {n : ℕ} (h : Attempting setup w) (hn : w.handshakeSeq ≤ n) :
    Attempting setup (attempt setup { w with handshakeSeq := n }) := by
  have hfresh : Fresh setup { w with handshakeSeq := n } :=
    ⟨h.fresh.client, h.fresh.down, h.fresh.jobs, h.fresh.ran, h.fresh.applied, h.fresh.up⟩
  refine ⟨hfresh.attempt, fun b hb => ?_⟩
  obtain ⟨out, heq, hout⟩ := attempt_eq setup { w with handshakeSeq := n }
  rw [heq] at hb ⊢
  rcases List.mem_append.mp hb with hb | hb
  · obtain ⟨m, hm, hb⟩ := h.up b hb
    exact ⟨m, hm.trans hn, hb⟩
  · exact ⟨n, Nat.le_refl _, hout b hb⟩

omit [TerminalState T] in
theorem attempting_start (setup : Setup) : Attempting setup (start setup : World cr T) :=
  Attempting.attempt (w := initial) ⟨fresh_initial setup, fun _ hb => nomatch hb⟩ (Nat.le_refl 1)

/-- STEP: as long as the server waits. -/
theorem Attempting.step (h : Attempting setup w) (hw : w.server = .waiting)
    (hwait : w'.server = .waiting) (hstep : w.step setup ev = some w') : Attempting setup w' := by
  cases step_moves hstep with
  | stay => exact h
  | attempt hc hn => exact h.attempt hn
  | connect hc hb => rw [h.fresh.down] at hb; cases hb
  | react hc => rw [h.fresh.client] at hc; cases hc
  | accept => exact absurd hwait (startSession_ne_waiting setup _ _)
  | serve hs => rw [hw] at hs; cases hs
  | runJob hj => rw [h.fresh.jobs] at hj; cases hj
  | shutdown hs => rw [hw] at hs; cases hs

/-- STEP: the server takes handshake `k`. -/
theorem Attempting.answered {i : ℕ} {bytes : Bytes} {src : SocketAddr} {now : Instant} {echo : Bool}
    {cols rows : ℕ} (hcr : cr.Lawful) (h : Attempting setup w) (hw : w.server = .waiting)
    (hup : w.up[i]? = some bytes)
    (hread : readHandshake cr setup.cryptoHandshake bytes = some (k, cols, rows))
    (hstep : w.step setup (.deliverUp i src now echo) = some w') :
    k ≤ w'.handshakeSeq ∧ w'.client = .connecting ∧ ∃ d,
      handshakeReply cr setup.cryptoHandshake setup.sessionId k = some [d] ∧ AfterAnswer setup d k w' := by
  obtain ⟨n, hn, hpacket⟩ := h.up bytes (List.mem_of_getElem? hup)
  obtain ⟨rfl, -⟩ := Prod.mk.inj (Option.some.inj
    (hread.symm.trans (readHandshake_handshakePacket hcr hpacket)))
  simp only [World.step, hup, receive, hw, waitForClientHandshake, hread] at hstep
  obtain ⟨x, hx, rfl⟩ := Option.map_eq_some_iff.mp hstep
  obtain ⟨reply, hreply, rfl⟩ := Option.map_eq_some_iff.mp hx
  obtain ⟨d, rfl⟩ : ∃ d, reply = [d] := by
    unfold handshakeReply at hreply
    split at hreply
    · cases hreply
    · split at hreply
      · cases hreply
      · rename_i ct _
        obtain ⟨d, hd⟩ := serialize_ok hcr.serverPacket ⟨replySeq, k, 0, 1, ct⟩
        rw [hd] at hreply
        exact ⟨d, (Option.some.inj hreply).symm⟩
  refine ⟨hn, h.fresh.client, d, hreply, startSession_ne_waiting setup _ now, fun s hs => ?_,
    fun job hj => ?_, ⟨[], by simp [h.fresh.down], by simp⟩, fun c hc => ?_⟩
  · simp only [startSession] at hs
    split at hs
    · rename_i session hnew
      obtain rfl := ServerPhase.serving.inj hs
      obtain ⟨t, -, hnew⟩ := bind_eq_ok.mp hnew
      cases hnew
      rfl
    · cases hs
  · have hj : job ∈ w.jobs := hj
    rw [h.fresh.jobs] at hj
    cases hj
  · have hc : w.client = .connected c := hc
    rw [h.fresh.client] at hc
    cases hc

omit [TerminalState T] in
/-- The initial resize of a new session does not panic. -/
theorem connect_isSome (setup : Setup) (w : World cr T) (sid seq cols rows : ℕ) (start now : Instant) :
    ∃ w', w.connect setup sid seq cols rows start now = some w' ∧ w'.isConnected = true := by
  have hfitted := MirrorSession.fitted_new sid (ChaChaCodec.new cr setup.key sid) seq cols rows
    setup.overlay start
  have hne : (MirrorSession.new sid (ChaChaCodec.new cr setup.key sid) seq cols rows setup.overlay
      start).step (.winch cols rows now) ≠ none := by
    rw [Ne, hfitted.step_eq_none_iff]
    rintro ⟨_, _, _, ha, _⟩
    cases ha
  rw [MirrorSession.step, Ne, Option.map_eq_none_iff] at hne
  obtain ⟨⟨c, out⟩, ht⟩ := Option.ne_none_iff_exists'.mp hne
  exact ⟨{ w with client := .connected c, up := w.up ++ out }, by rw [connect, ht]; rfl, rfl⟩

/-- ONE CHANCE: the server takes a handshake, number `k`. If the client still waits at attempt `k`, the
    answer connects it. And over any network, whatever either side does from then on, a client is
    connected exactly if the answer has arrived at attempt `k`; so one that had moved on by then never is,
    and the two agree on the session. -/
theorem connects_iff (ha : Separate cr setup) {before : List WorldEvent} {w w₁ : World cr T}
    (hbefore : runFrom (step setup) (start setup) before = some w) (hwait : w.server = .waiting)
    {i : ℕ} {bytes : Bytes} {src : SocketAddr} {now : Instant} {echo : Bool} {cols rows : ℕ}
    (hup : w.up[i]? = some bytes)
    (hread : readHandshake cr setup.cryptoHandshake bytes = some (k, cols, rows))
    (haccept : w.step setup (.deliverUp i src now echo) = some w₁) :
    (w₁.handshakeSeq = k → ∀ cols rows start now, ∃ w',
      w₁.step setup (.reply 0 cols rows start now) = some w' ∧ w'.isConnected = true) ∧
    ∀ after w₂, runFrom (step setup) w₁ after = some w₂ →
      StepsMeet (step setup) (fun u _ => Proper setup u) w₁ after →
      (w₂.isConnected = false ↔ StepsMeet (step setup) (fun u ev => u.hears k ev = false) w₁ after) ∧
      ∀ c, w₂.client = .connected c →
        c.sessionId = setup.sessionId ∧ w₂.handshakeSeq = k ∧ w₁.handshakeSeq = k := by
  have hstep : ∀ (u : World cr T) ev u', (u.server = .waiting → Attempting setup u) →
      u.step setup ev = some u' → u'.server = .waiting → Attempting setup u' := by
    intro u ev u' hu hs hwait
    have hw : u.server = .waiting := by
      by_contra hne
      exact step_ne_waiting hne hs hwait
    exact (hu hw).step hw hwait hs
  have hfirst := run_invariant_all hstep (fun _ => attempting_start setup) hbefore hwait
  obtain ⟨hk, hconnecting, d, hd, hanswered⟩ := hfirst.answered ha.lawful hwait hup hread haccept
  have hno : w₁.isConnected = false := by rw [isConnected, hconnecting]
  refine ⟨fun heq cols rows start now => ?_, fun after w₂ hafter hproper => ?_⟩
  · obtain ⟨rest, hdown, -⟩ := hanswered.down
    have hzero : w₁.down[0]? = some d := by rw [hdown]; rfl
    have htest := acceptReply_handshakeReply ha.lawful hd (List.mem_singleton_self d)
    simp only [step, hconnecting, hzero, heq, htest]
    exact connect_isSome setup w₁ ..
  · obtain ⟨hend, hle, hiff⟩ := hanswered.run ha hd hproper hafter
    rw [hno] at hiff
    refine ⟨by simpa using hiff, fun c hc => ?_⟩
    obtain ⟨hsid, hseq⟩ := hend.client c hc
    exact ⟨hsid, hseq, Nat.le_antisymm (hle.trans hseq.le) hk⟩

/-- The first handshake is late: the client has timed out when it is taken. The answer finds attempt 2,
    and the session's answer to attempt 2 cannot be read. -/
theorem connects_iff_late : ∃ w w₁ w₂ : World Bincode.crates TextTerminal,
    runFrom (step ⟨zeroKey, someId, 2, 1, false⟩) (start ⟨zeroKey, someId, 2, 1, false⟩)
      [.timeout] = some w ∧
    w.step ⟨zeroKey, someId, 2, 1, false⟩ (.deliverUp 0 ⟨0, 0⟩ 0 false) = some w₁ ∧
    runFrom (step ⟨zeroKey, someId, 2, 1, false⟩) w₁
      [.reply 0 2 1 0 0, .deliverUp 1 ⟨0, 0⟩ (secs 10) false, .reply 1 2 1 0 0] = some w₂ ∧
    w₂.down.length = 2 ∧ w₂.isConnected = false := by
  obtain ⟨w, w₁, w₂, bytes, hw, hwait, hup, hread, hw₁, hw₂, hlen, hproper, hdeaf⟩ :
    ∃ (w w₁ w₂ : World Bincode.crates TextTerminal) (bytes : Bytes),
      runFrom (step ⟨zeroKey, someId, 2, 1, false⟩) (start ⟨zeroKey, someId, 2, 1, false⟩)
        [.timeout] = some w ∧ w.server = .waiting ∧ w.up[0]? = some bytes ∧
      readHandshake Bincode.crates (CryptoManager.new zeroKey 0) bytes = some (1, 2, 1) ∧
      w.step ⟨zeroKey, someId, 2, 1, false⟩ (.deliverUp 0 ⟨0, 0⟩ 0 false) = some w₁ ∧
      runFrom (step ⟨zeroKey, someId, 2, 1, false⟩) w₁
        [.reply 0 2 1 0 0, .deliverUp 1 ⟨0, 0⟩ (secs 10) false, .reply 1 2 1 0 0] = some w₂ ∧
      w₂.down.length = 2 ∧
      StepsMeet (step ⟨zeroKey, someId, 2, 1, false⟩) (fun u _ => Proper ⟨zeroKey, someId, 2, 1, false⟩ u)
        w₁ [.reply 0 2 1 0 0, .deliverUp 1 ⟨0, 0⟩ (secs 10) false, .reply 1 2 1 0 0] ∧
      StepsMeet (step ⟨zeroKey, someId, 2, 1, false⟩) (fun u ev => u.hears 1 ev = false)
        w₁ [.reply 0 2 1 0 0, .deliverUp 1 ⟨0, 0⟩ (secs 10) false, .reply 1 2 1 0 0] :=
    ⟨_, _, _, _, rfl, rfl, rfl, by decide +kernel, rfl, rfl, by decide +kernel, by decide +kernel,
      by decide +kernel⟩
  have hseparate : Separate Bincode.crates ⟨zeroKey, someId, 2, 1, false⟩ :=
    ⟨Bincode.crates_lawful, crates_handshakeWire, by decide, fun _ _ _ _ => Link.length_sealServer_crates _⟩
  have hnever := ((connects_iff hseparate hw hwait hup hread hw₁).2 _ _ hw₂ hproper).1.mpr hdeaf
  exact ⟨w, w₁, w₂, hw, hw₁, hw₂, hlen, hnever⟩

end World

end Rumsh.System
