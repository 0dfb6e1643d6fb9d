import Rumsh.Protocol.RoundTrip
import Rumsh.Server.Emits
import Rumsh.Server.Network
import Rumsh.Client.Network

/-! The handshake between the two programs.

    The server answers a handshake on two paths: `wait_for_client_handshake` seals the reply by hand, a
    running session through its codec. The client has one test for both. The first path passes it; the
    second puts a compression flag before the payload and seals under the session's own nonces, so it
    passes only where neither shows: for session id 0. -/

namespace Rumsh.System
open Rumsh.Schemes Rumsh.Protocol Rumsh.Server Rumsh.Client

/-- The nonces that exist: four bytes of salt, eight of sequence number. -/
def NonceInRange (n : Nonce) : Prop := n.salt < 2 ^ 32 ∧ n.seqNum < 2 ^ 64

/-- Handshakes on the wire. `bincode` writes the index of the variant and each integer as a varint, and
    decoding ignores what follows; the AEAD adds a 16-byte tag and opens only under the nonce that
    sealed. -/
structure HandshakeWire (cr : Crates) : Prop where
  encode_handshake : ∀ version cols rows, version < 2 ^ 64 → cols < 2 ^ 64 → rows < 2 ^ 64 →
    cr.clientPayload.encode (.handshake version cols rows) =
      some (0 :: (Format.putVarint version ++ Format.putVarint cols ++ Format.putVarint rows))
  encode_handshakeAck : ∀ sid < 2 ^ 64,
    cr.serverPayload.encode (.handshakeAck sid) = some (0 :: Format.putVarint sid)
  decode_handshakeAck : ∀ sid < 2 ^ 64, ∀ rest,
    cr.serverPayload.decode (0 :: (Format.putVarint sid ++ rest)) = some (.handshakeAck sid)
  length_aeadEncrypt : ∀ k n p c, cr.aeadEncrypt k n p = some c → c.length = p.length + 16
  aeadDecrypt_otherNonce : ∀ k n n' p c, NonceInRange n → NonceInRange n' → n ≠ n' →
    cr.aeadEncrypt k n p = some c → cr.aeadDecrypt k n' c = none

/-! ### The server's answers -/

/-- The server before and after its first handshake. -/
inductive ServerPhase (cr : Crates) (T : Type) where
  | waiting
  | serving (session : AuthoritativeSession (ChaChaCodec cr) T)
  -- it answered, and its session could not be started
  | stopped

namespace ServerPhase
variable {cr : Crates} {T : Type}

def isWaiting : ServerPhase cr T → Bool
  | .waiting => true
  | _ => false

variable [TerminalState T]

/-- A state the server of this session id can be in. -/
def Reachable (key : Key) (sid : ℕ) : ServerPhase cr T → Prop
  | .waiting => True
  | .serving s => ∃ c addr cols rows start s₀ events,
      AuthoritativeSession.new sid (ChaChaCodec.new cr key sid) c addr cols rows start = .ok s₀ ∧
      runFrom AuthoritativeSession.step s₀ events = some s
  | .stopped => True

/-- The datagrams a datagram is answered with. -/
def answer (key : Key) (sid : ℕ) (bytes : Bytes) (src : SocketAddr) (now : Instant) (echo : Bool) :
    ServerPhase cr T → List Bytes
  | .waiting =>
    match waitForClientHandshake cr (CryptoManager.new key 0) sid bytes src with
    | some (some (_, reply)) => reply
    | _ => []
  | .serving s =>
    match s.feedPacket bytes src now echo with
    | some (_, r) => datagramsOf (actionsOf r)
    | none => []
  | .stopped => []

end ServerPhase

/-- The codec and the session id are those the session was started with. -/
theorem static_of_run {C T : Type} [PacketCodec C] [TerminalState T] {s₀ s : AuthoritativeSession C T}
    {events : List SessionEvent} (h : runFrom AuthoritativeSession.step s₀ events = some s) :
    s.codec = s₀.codec ∧ s.sessionId = s₀.sessionId := by
  have hinv : ∀ (t : AuthoritativeSession C T) ev t', t.codec = s₀.codec ∧ t.sessionId = s₀.sessionId →
      t.step ev = some t' → t'.codec = s₀.codec ∧ t'.sessionId = s₀.sessionId := ?_
  · exact run_invariant_all hinv ⟨rfl, rfl⟩ h
  rintro t ev t' ⟨h₁, h₂⟩ hstep
  cases ev with
  | packet bytes src now echo =>
    obtain ⟨⟨u, r⟩, hu, rfl⟩ := Option.map_eq_some_iff.mp hstep
    obtain ⟨k₁, k₂⟩ := AuthoritativeSession.feedPacket_static hu
    exact ⟨k₁.trans h₁, k₂.trans h₂⟩
  | ptyBytes data now =>
    cases hstep
    exact ⟨h₁, h₂⟩
  | tick now echo =>
    cases hstep
    have hs := AuthoritativeSession.checkSync_sameWindow t now echo
    exact ⟨hs.codec.trans h₁, hs.sessionId.trans h₂⟩

section Paths
variable {cr : Crates} {key : Key} {sid k cols rows : ℕ} {bytes d : Bytes}

/-- The client's hand-written handshake is what its codec would seal for session 0. -/
theorem sealClient_handshake (codec : ChaChaCodec cr) :
    codec.sealClient 0 k 0 (.handshake 1 cols rows) =
      handshakePacket cr codec.handshakeCrypto k cols rows := rfl

/-- PATH 1: the reply of `wait_for_client_handshake` is accepted. -/
theorem acceptReply_handshakeReply (hcr : cr.Lawful) {crypto : CryptoManager} {reply : List Bytes}
    (h : handshakeReply cr crypto sid k = some reply) (hd : d ∈ reply) :
    acceptReply cr crypto k d = some (sid, replySeq) := by
  unfold handshakeReply at h
  split at h
  · cases h
  · rename_i ackBytes hack
    split at h
    · cases h
    · rename_i ct hct
      split at h
      · rename_i packet hpacket
        cases h
        obtain rfl := List.mem_singleton.mp hd
        simp [acceptReply, deserialize_of_serialize hcr.serverPacket hpacket,
          CryptoManager.decrypt_encrypt hcr hct, deserialize_of_serialize hcr.serverPayload hack]
      · cases h
        cases hd

theorem readHandshake_handshakePacket (hcr : cr.Lawful) {crypto : CryptoManager}
    (h : handshakePacket cr crypto k cols rows = .ok bytes) :
    readHandshake cr crypto bytes = some (k, cols, rows) := by
  obtain ⟨plain, hplain, h⟩ := bind_eq_ok.mp h
  obtain ⟨ct, hct, h⟩ := bind_eq_ok.mp h
  simp [readHandshake, deserialize_of_serialize hcr.clientPacket h,
    CryptoManager.decrypt_encrypt hcr hct, deserialize_of_serialize hcr.clientPayload hplain]

theorem length_putVarint {n : ℕ} (h : n < 2 ^ 64) : (Format.putVarint n).length ≤ 9 := by
  unfold Format.putVarint
  split
  · simp
  · split
    · simp
    · split
      · simp
      · simp

/-- The session's own `HandshakeAck` is one datagram: the flag byte and the payload, sealed under the
    session's nonce. -/
theorem sealServer_handshakeAck (hw : HandshakeWire cr) (hsid : sid < 2 ^ 64)
    {codec : ChaChaCodec cr} {seq : ℕ} {datagrams : List Bytes}
    (h : codec.sealServer seq k (.handshakeAck sid) = .ok datagrams) (hd : d ∈ datagrams) :
    ∃ ct, codec.crypto.encrypt cr seq (0 :: 0 :: Format.putVarint sid) = .ok ct ∧
      serialize cr.serverPacket ⟨seq, k, 0, 1, ct⟩ = .ok d := by
  obtain ⟨plain, ct, hplain, hct, hds⟩ := ChaChaCodec.sealServer_eq_ok h
  have hlen := length_putVarint hsid
  obtain rfl : 0 :: 0 :: Format.putVarint sid = plain := by
    simp only [serializeCompressed, serialize, hw.encode_handshakeAck sid hsid, okOr_some, bind,
      Except.bind, List.length_cons] at hplain
    rw [if_pos (by omega)] at hplain
    exact Except.ok.inj hplain
  have hct' := hw.length_aeadEncrypt _ _ _ _ (okOr_eq_ok.mp hct)
  simp only [List.length_cons] at hct'
  rw [fragmentPackets, if_pos (by simp [FRAGMENT_PAYLOAD_SIZE]; omega)] at hds
  obtain ⟨d', hd', hnil⟩ := bind_eq_ok.mp hds
  cases hnil
  obtain rfl := List.mem_singleton.mp hd
  exact ⟨ct, hct, hd'⟩

/-- PATH 2: the session's `HandshakeAck` is accepted, with its session id, exactly for session 0. -/
theorem acceptReply_sealServer_iff (hcr : cr.Lawful) (hw : HandshakeWire cr) (hsid : sid < 2 ^ 64)
    {seq : ℕ} (hseq : seq < 2 ^ 64) {datagrams : List Bytes}
    (h : (ChaChaCodec.new cr key sid).sealServer seq k (.handshakeAck sid) = .ok datagrams)
    (hd : d ∈ datagrams) :
    (∃ q, acceptReply cr (CryptoManager.new key 0) k d = some (sid, q)) ↔ sid = 0 := by
  obtain ⟨ct, hct, hpacket⟩ := sealServer_handshakeAck hw hsid h hd
  have hde := deserialize_of_serialize hcr.serverPacket hpacket
  by_cases hsalt : (CryptoManager.new key sid).salt = 0
  · -- the same nonce: it opens, and the flag byte reads as the variant, the variant as the id
    have hcrypto : CryptoManager.new key 0 = (ChaChaCodec.new cr key sid).crypto := by
      simp [ChaChaCodec.new, CryptoManager.new] at hsalt ⊢
      exact hsalt.symm
    have hdec : deserialize cr.serverPayload (0 :: 0 :: Format.putVarint sid) =
        .ok (.handshakeAck 0) := by
      simp [deserialize, show (0 : UInt8) :: Format.putVarint sid =
        Format.putVarint 0 ++ Format.putVarint sid from rfl, hw.decode_handshakeAck]
    simp [acceptReply, hde, hcrypto, CryptoManager.decrypt_encrypt hcr hct, hdec, eq_comm]
  · have hnone : (CryptoManager.new key 0).decrypt cr seq ct = .error .decryption := by
      have := hw.aeadDecrypt_otherNonce key _ ⟨0, seq⟩ _ _ ⟨Nat.mod_lt _ (by decide), hseq⟩
        ⟨Nat.two_pow_pos 32, hseq⟩ (fun heq => hsalt (congrArg Nonce.salt heq)) (okOr_eq_ok.mp hct)
      simp [CryptoManager.decrypt, CryptoManager.makeNonce, CryptoManager.new, this]
    have hne : sid ≠ 0 := by
      rintro rfl
      exact hsalt rfl
    simp [acceptReply, hde, hnone, hne]

variable {T : Type} [TerminalState T]

/-- The answer to the client's handshake number `k` passes the client's test and yields the session id
    exactly if `wait_for_client_handshake` gave it, or the session id is 0. -/
theorem answer_accepted_iff (hcr : cr.Lawful) (hw : HandshakeWire cr) (hsid : sid < 2 ^ 64)
    (hk : handshakePacket cr (CryptoManager.new key 0) k cols rows = .ok bytes)
    {server : ServerPhase cr T} (hs : server.Reachable key sid)
    (hseq : ∀ s, server = .serving s → s.seqNum + 1 < 2 ^ 64) {src : SocketAddr} {now : Instant}
    {echo : Bool} (hd : d ∈ server.answer key sid bytes src now echo) :
    (∃ seq, acceptReply cr (CryptoManager.new key 0) k d = some (sid, seq)) ↔
      server.isWaiting = true ∨ sid = 0 := by
  cases server with
  | waiting =>
    simp only [ServerPhase.isWaiting, true_or, iff_true]
    simp only [ServerPhase.answer, waitForClientHandshake, readHandshake_handshakePacket hcr hk] at hd
    split at hd
    · rename_i reply heq
      obtain ⟨r, hr, heq⟩ := Option.map_eq_some_iff.mp heq
      obtain ⟨-, rfl⟩ := Prod.mk.inj (Option.some.inj heq)
      exact ⟨replySeq, acceptReply_handshakeReply hcr hr hd⟩
    · cases hd
  | serving s =>
    obtain ⟨c, addr, cols', rows', start, s₀, events, hnew, hrun⟩ := hs
    obtain ⟨t, -, hnew⟩ := bind_eq_ok.mp hnew
    cases hnew
    obtain ⟨hcodec, hid⟩ := static_of_run hrun
    simp only [ServerPhase.isWaiting, Bool.false_eq_true, false_or]
    simp only [ServerPhase.answer] at hd
    split at hd
    · rename_i s' r hfeed
      have hseal : s.codec.sealClient 0 k 0 (.handshake 1 cols rows) = .ok bytes := by
        rw [sealClient_handshake, hcodec]
        exact hk
      obtain ⟨ct, stats, hopen⟩ :=
        ChaChaCodec.openClient_sealClient hcr ⟨rfl, rfl, rfl⟩ (.inl rfl) hseal
      have hfh : some (s.feedHandshake k src now echo) = some (s', r) := by
        rw [← hfeed]
        simp only [AuthoritativeSession.feedPacket, PacketCodec.openClient, hopen, if_true]
      rcases AuthoritativeSession.feedHandshake_cases (Option.some.inj hfh) with
        ⟨-, -, rfl⟩ | ⟨-, u, -, ⟨e, -, -, rfl⟩ | ⟨datagrams, hds, -, rfl⟩⟩
      · cases hd
      · cases hd
      · have hsync : datagramsOf (u.checkSync now echo).2 = [] := u.datagramsOf_checkSync now echo
        have hmem : d ∈ datagrams := by simpa [actionsOf, hsync] using hd
        rw [hcodec, hid] at hds
        exact acceptReply_sealServer_iff hcr hw hsid (hseq s rfl) hds hmem
    · cases hd
  | stopped => cases hd

end Paths

/-! ### Concrete runs -/

theorem tag_inj {n n' : Nonce} (hn : NonceInRange n) (hn' : NonceInRange n')
    (h : Bincode.tag n = Bincode.tag n') : n = n' := by
  obtain ⟨h, -⟩ := List.append_inj h (by simp)
  obtain ⟨h₁, h₂⟩ := List.append_inj h (by simp)
  cases n
  cases n'
  obtain rfl := Format.le_inj (by exact hn.1) (by exact hn'.1) h₁
  obtain rfl := Format.le_inj (by exact hn.2) (by exact hn'.2) h₂
  rfl

theorem crates_handshakeWire : HandshakeWire Bincode.crates where
  encode_handshake version cols rows _ _ _ := by
    show some (0 :: (Format.putVarint version ++ (Format.putVarint cols ++ Format.putVarint rows))) = _
    rw [List.append_assoc]
  encode_handshakeAck sid _ := rfl
  decode_handshakeAck sid _ rest := by
    show ((Format.getVarint (Format.putVarint sid ++ rest)).map fun x =>
      (ServerPayload.handshakeAck x.1, x.2)).map Prod.fst = _
    rw [Format.getVarint_putVarint]
    rfl
  length_aeadEncrypt k n p c h := by
    obtain ⟨rfl, -⟩ := Bincode.aeadEncrypt_eq_some (k := k) h
    rw [List.length_append, Bincode.length_tag, Nat.add_comm]
  aeadDecrypt_otherNonce k n n' p c hn hn' hne h := by
    obtain ⟨rfl, -⟩ := Bincode.aeadEncrypt_eq_some (k := k) h
    show (if (Bincode.tag n ++ p).take 16 = Bincode.tag n' then _ else none) = none
    rw [List.take_left' (Bincode.length_tag n), if_neg fun heq => hne (tag_inj hn hn' heq)]

/-- An all-zero key. -/
def zeroKey : Key := Vector.replicate 32 0

/-- A session id with a non-zero salt. -/
def someId : ℕ := 2 ^ 32

/-- The first handshake, answered by the waiting server. -/
theorem answer_accepted_waiting :
    ∃ (server : ServerPhase Bincode.crates TextTerminal) (bytes d : Bytes),
      handshakePacket Bincode.crates (CryptoManager.new zeroKey 0) 1 80 24 = .ok bytes ∧
      d ∈ server.answer zeroKey someId bytes ⟨0, 0⟩ 0 false ∧
      ∃ seq, acceptReply Bincode.crates (CryptoManager.new zeroKey 0) 1 d = some (someId, seq) := by
  obtain ⟨bytes, hb⟩ : ∃ bytes, handshakePacket Bincode.crates (CryptoManager.new zeroKey 0) 1 80 24 =
    .ok bytes := ⟨_, rfl⟩
  obtain ⟨d, hd⟩ : ∃ d, handshakeReply Bincode.crates (CryptoManager.new zeroKey 0) someId 1 =
    some [d] := ⟨_, rfl⟩
  have hmem : d ∈ (ServerPhase.waiting : ServerPhase Bincode.crates TextTerminal).answer zeroKey
      someId bytes ⟨0, 0⟩ 0 false := by
    simp [ServerPhase.answer, waitForClientHandshake,
      readHandshake_handshakePacket Bincode.crates_lawful hb, hd]
  exact ⟨.waiting, bytes, d, hb, hmem, (answer_accepted_iff Bincode.crates_lawful
    crates_handshakeWire (by decide) hb (by trivial) (by rintro s ⟨⟩) hmem).mpr (.inl rfl)⟩

/-- The first reply was lost, and the session answers the second handshake: the client cannot read
    it. -/
theorem second_handshake_unreadable :
    ∃ (server : ServerPhase Bincode.crates TextTerminal) (bytes d : Bytes),
      server.Reachable zeroKey someId ∧
      handshakePacket Bincode.crates (CryptoManager.new zeroKey 0) 2 80 24 = .ok bytes ∧
      d ∈ server.answer zeroKey someId bytes ⟨0, 0⟩ 0 false ∧
      ¬ ∃ seq, acceptReply Bincode.crates (CryptoManager.new zeroKey 0) 2 d = some (someId, seq) := by
  obtain ⟨s, hs⟩ : ∃ s : AuthoritativeSession (ChaChaCodec Bincode.crates) TextTerminal,
    AuthoritativeSession.new someId (ChaChaCodec.new Bincode.crates zeroKey someId)
      1 ⟨0, 0⟩ 80 24 0 = .ok s := ⟨_, rfl⟩
  obtain ⟨bytes, hb⟩ : ∃ bytes, handshakePacket Bincode.crates (CryptoManager.new zeroKey 0) 2 80 24 =
    .ok bytes := ⟨_, rfl⟩
  obtain ⟨d, hd⟩ : ∃ d, (ChaChaCodec.new Bincode.crates zeroKey someId).sealServer 1 2
    (.handshakeAck someId) = .ok [d] := ⟨_, rfl⟩
  have hmem : d ∈ (ServerPhase.serving s).answer zeroKey someId bytes ⟨0, 0⟩ 0 false := by
    cases hs
    obtain ⟨ct, stats, hopen⟩ := ChaChaCodec.openClient_sealClient Bincode.crates_lawful
      ⟨rfl, rfl, rfl⟩ (.inl rfl) ((sealClient_handshake (ChaChaCodec.new Bincode.crates zeroKey
        someId)).trans hb)
    simp [ServerPhase.answer, AuthoritativeSession.feedPacket, PacketCodec.openClient, hopen,
      AuthoritativeSession.feedHandshake, AuthoritativeSession.ignoresHandshake,
      AuthoritativeSession.sealNext, AuthoritativeSession.resetFor, PacketCodec.sealServer, hd,
      actionsOf]
  refine ⟨.serving s, bytes, d, ⟨1, ⟨0, 0⟩, 80, 24, 0, s, [], hs, rfl⟩, hb, hmem, ?_⟩
  rw [acceptReply_sealServer_iff Bincode.crates_lawful crates_handshakeWire (by decide)
    (show 1 < 2 ^ 64 by decide) hd (List.mem_singleton.mpr rfl)]
  decide

end Rumsh.System
