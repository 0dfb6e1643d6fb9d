import Rumsh.Protocol.RoundTrip

/-! What the cipher authenticates.

    The AEAD is ideal for a set of honest `seal_client` and `seal_server` calls: it opens only what one
    of them encrypted, under the nonce it was encrypted with. A nonce is the session's salt and the
    sequence number, and nothing else of a header goes into it. So an accepted packet carries the number
    and the payload of one honest call, and an ack of anyone's choice; and since both directions use the
    same nonces, the call may be one of the other direction. -/

namespace Rumsh.Protocol
open PacketCodec

/-- The arguments of a `seal_client` call. -/
structure ClientCall where
  sessionId : ℕ
  seq : ℕ
  ack : ℕ
  payload : ClientPayload
  deriving DecidableEq

/-- The arguments of a `seal_server` call. -/
structure ServerCall where
  seq : ℕ
  ack : ℕ
  payload : ServerPayload
  deriving DecidableEq

namespace ChaChaCodec
variable {cr : Crates}

/-- The crypto `seal_client` uses for a session id. -/
def clientCrypto (c : ChaChaCodec cr) (sessionId : ℕ) : CryptoManager :=
  if sessionId = 0 then c.handshakeCrypto else c.crypto

/-- The call encrypts this plaintext under this nonce. -/
def ClientCall.Encrypts (c : ChaChaCodec cr) (call : ClientCall) (n : Nonce) (plain : Bytes) : Prop :=
  n = (c.clientCrypto call.sessionId).makeNonce call.seq ∧
    serialize cr.clientPayload call.payload = .ok plain

def ServerCall.Encrypts (c : ChaChaCodec cr) (call : ServerCall) (n : Nonce) (plain : Bytes) : Prop :=
  n = c.crypto.makeNonce call.seq ∧
    serializeCompressed cr cr.serverPayload call.payload = .ok plain

/-- Decryption under the session's key succeeds only on what an honest call encrypted under the same
    nonce. -/
def Ideal (c : ChaChaCodec cr) (clientCalls : List ClientCall) (serverCalls : List ServerCall) : Prop :=
  ∀ n ct, (cr.aeadDecrypt c.crypto.key n ct).isSome = true →
    ∃ plain, cr.aeadEncrypt c.crypto.key n plain = some ct ∧
      ((∃ call ∈ clientCalls, ClientCall.Encrypts c call n plain) ∨
        (∃ call ∈ serverCalls, ServerCall.Encrypts c call n plain))

variable {key : Key} {sid : ℕ} {clientCalls : List ClientCall} {serverCalls : List ServerCall}

/-- What an ideal cipher opens is the plaintext of an honest call. -/
theorem Ideal.decrypt {c : ChaChaCodec cr} (hcr : cr.Lawful) (h : c.Ideal clientCalls serverCalls)
    {m : CryptoManager} (hm : m.key = c.crypto.key) {seq : ℕ} {ct plain : Bytes}
    (hd : m.decrypt cr seq ct = .ok plain) :
    (∃ call ∈ clientCalls, ClientCall.Encrypts c call (m.makeNonce seq) plain) ∨
      (∃ call ∈ serverCalls, ServerCall.Encrypts c call (m.makeNonce seq) plain) := by
  have hd' : cr.aeadDecrypt c.crypto.key (m.makeNonce seq) ct = some plain := hm ▸ okOr_eq_ok.mp hd
  obtain ⟨plain', henc, hcall⟩ := h (m.makeNonce seq) ct (by rw [hd']; rfl)
  have := hcr.aeadDecrypt_aeadEncrypt _ _ _ _ henc
  rw [hd'] at this
  cases this
  exact hcall

theorem serialize_inj {α : Type} {d : Serde α} (hd : d.RoundTrips) {a b : α} {bytes : Bytes}
    (ha : serialize d a = .ok bytes) (hb : deserialize d bytes = .ok b) : a = b := by
  rw [deserialize_of_serialize hd ha] at hb
  exact Except.ok.inj hb

/-- What acceptance by `open_client` means. -/
theorem openClient_eq_ok {c : ChaChaCodec cr} {bytes : Bytes} {w : EncryptedClientPacket}
    {p : ClientPayload} {st : CodecStats} (h : c.openClient bytes = .ok (w, p, st)) :
    (w.sessionId = 0 ∨ w.sessionId = c.sessionId) ∧
      ∃ plain, (c.clientCrypto w.sessionId).decrypt cr w.seqNum w.ciphertext = .ok plain ∧
        deserialize cr.clientPayload plain = .ok p := by
  obtain ⟨w', -, h⟩ := bind_eq_ok.mp h
  obtain ⟨m, hm, h⟩ := bind_eq_ok.mp h
  obtain ⟨plain, hplain, h⟩ := bind_eq_ok.mp h
  obtain ⟨p', hp, h⟩ := bind_eq_ok.mp h
  cases h
  have hcrypto : (w.sessionId = 0 ∨ w.sessionId = c.sessionId) ∧ m = c.clientCrypto w.sessionId := by
    unfold cryptoFor at hm
    split at hm
    · rename_i h0
      cases hm
      exact ⟨.inl h0, by simp [clientCrypto, h0]⟩
    · rename_i h0
      split at hm
      · rename_i hs
        cases hm
        exact ⟨.inr hs, by simp [clientCrypto, h0]⟩
      · cases hm
  exact ⟨hcrypto.1, plain, hcrypto.2 ▸ hplain, hp⟩

/-- What acceptance by `open_server` means, whatever the fragment buffer held. -/
theorem openServer_eq_some {c : ChaChaCodec cr} {bytes : Bytes} {w : EncryptedServerPacket}
    {p : ServerPayload} {st : CodecStats} (h : (c.openServer bytes).2 = .ok (some (w, p, st))) :
    ∃ ct plain n m, c.crypto.decrypt cr w.seqNum ct = .ok plain ∧
      deserializeCompressedGetSizes cr cr.serverPayload plain = .ok (p, n, m) := by
  unfold openServer at h
  split at h
  · cases h
  · split at h
    · cases h
    · rename_i buf packet ct wireLen hins
      cases hopen : c.openComplete packet ct wireLen with
      | error e => simp [hopen, Except.map] at h
      | ok r =>
        rw [hopen] at h
        cases h
        obtain ⟨plain, hplain, hopen⟩ := bind_eq_ok.mp hopen
        obtain ⟨⟨p', n, m⟩, hp, hopen⟩ := bind_eq_ok.mp hopen
        cases hopen
        exact ⟨ct, plain, n, m, hplain, hp⟩

/-- Equal nonces of two client packets: the same number, and the same session unless its salt is 0. -/
theorem makeNonce_inj {c : ChaChaCodec cr} {s s' seq seq' : ℕ} (hs : s = 0 ∨ s = c.sessionId)
    (hs' : s' = 0 ∨ s' = c.sessionId) (hzero : c.handshakeCrypto.salt = 0)
    (h : (c.clientCrypto s).makeNonce seq = (c.clientCrypto s').makeNonce seq') :
    seq = seq' ∧ (s = s' ∨ c.crypto.salt = 0) := by
  obtain ⟨hsalt, hseq⟩ := Nonce.mk.inj h
  refine ⟨hseq, ?_⟩
  unfold clientCrypto at hsalt
  rcases hs with rfl | rfl <;> rcases hs' with rfl | rfl
  · exact .inl rfl
  · by_cases h0 : c.sessionId = 0
    · exact .inl h0.symm
    · simp only [if_true, h0, if_false, hzero] at hsalt
      exact .inr hsalt.symm
  · by_cases h0 : c.sessionId = 0
    · exact .inl h0
    · simp only [if_true, h0, if_false, hzero] at hsalt
      exact .inr hsalt
  · exact .inl rfl

/-- AUTHENTIC: a packet `open_client` accepts has the number and the payload of one `seal_client` call
    under the same salt, so also its session id unless the salt is 0, or it is a server's ciphertext
    under the same number, sent back. A packet `open_server` accepts has the number and the payload of
    one `seal_server` call, or it is a client's ciphertext under the same number, sent back. -/
theorem open_authentic (hcr : cr.Lawful) (key : Key) (sid : ℕ)
    (clientCalls : List ClientCall) (serverCalls : List ServerCall)
    (hsid : ∀ call ∈ clientCalls, call.sessionId = 0 ∨ call.sessionId = sid)
    (hideal : (ChaChaCodec.new cr key sid).Ideal clientCalls serverCalls) :
    (∀ bytes w p st, (ChaChaCodec.new cr key sid).openClient bytes = .ok (w, p, st) →
      (∃ call ∈ clientCalls, call.seq = w.seqNum ∧ call.payload = p ∧
        (call.sessionId = w.sessionId ∨ (ChaChaCodec.new cr key sid).crypto.salt = 0)) ∨
      (∃ call ∈ serverCalls, call.seq = w.seqNum ∧
        ∃ plain, serializeCompressed cr cr.serverPayload call.payload = .ok plain ∧
          deserialize cr.clientPayload plain = .ok p)) ∧
    (∀ datagrams bytes w p st,
      ((fed (ChaChaCodec.new cr key sid) datagrams).openServer bytes).2 = .ok (some (w, p, st)) →
      (∃ call ∈ serverCalls, call.seq = w.seqNum ∧ call.payload = p) ∨
      (∃ call ∈ clientCalls, call.seq = w.seqNum ∧
        ∃ plain n m, serialize cr.clientPayload call.payload = .ok plain ∧
          deserializeCompressedGetSizes cr cr.serverPayload plain = .ok (p, n, m))) := by
  constructor
  · intro bytes w p st h
    obtain ⟨hw, plain, hd, hp⟩ := openClient_eq_ok h
    have hkey : ((ChaChaCodec.new cr key sid).clientCrypto w.sessionId).key = key := by
      unfold clientCrypto
      split <;> rfl
    rcases hideal.decrypt hcr hkey hd with ⟨call, hcall, hn, hser⟩ | ⟨call, hcall, hn, hser⟩
    · obtain ⟨hseq, hsession⟩ := makeNonce_inj hw (hsid call hcall) rfl hn
      refine .inl ⟨call, hcall, hseq.symm, serialize_inj hcr.clientPayload hser hp, ?_⟩
      rcases hsession with hsession | hsalt
      · exact .inl hsession.symm
      · exact .inr hsalt
    · exact .inr ⟨call, hcall, (Nonce.mk.inj hn).2.symm, plain, hser, hp⟩
  · intro datagrams bytes w p st h
    obtain ⟨ct, plain, n, m, hd, hp⟩ := openServer_eq_some h
    rw [(sameKeys_fed (ChaChaCodec.new cr key sid) datagrams).1] at hd
    rcases hideal.decrypt hcr rfl hd with ⟨call, hcall, hn, hser⟩ | ⟨call, hcall, hn, hser⟩
    · exact .inr ⟨call, hcall, (Nonce.mk.inj hn).2.symm, plain, n, m, hser, hp⟩
    · refine .inl ⟨call, hcall, (Nonce.mk.inj hn).2.symm, ?_⟩
      obtain ⟨n', m', hp'⟩ := deserializeCompressed_serializeCompressed hcr hcr.serverPayload hser
      rw [hp] at hp'
      cases hp'
      rfl

/-! ### A cipher that is ideal for given calls -/

/-- The toy cipher, restricted to a table of nonces and plaintexts. -/
def tableCrates (table : List (Nonce × Bytes)) : Crates :=
  { Bincode.crates with
    aeadEncrypt := fun k n p => if (n, p) ∈ table then Bincode.aeadEncrypt k n p else none
    aeadDecrypt := fun k n c => (Bincode.aeadDecrypt k n c).filter fun p => (n, p) ∈ table }

theorem tableCrates_lawful (table : List (Nonce × Bytes)) : (tableCrates table).Lawful :=
  { Bincode.crates_lawful with
    aeadDecrypt_aeadEncrypt := by
      intro k n p c h
      simp only [tableCrates] at h ⊢
      split at h
      · rename_i hmem
        rw [Bincode.aeadDecrypt_aeadEncrypt h]
        simp [hmem]
      · cases h }

/-- It opens only what the table allows it to encrypt. -/
theorem tableCrates_decrypt {table : List (Nonce × Bytes)} (hshort : ∀ e ∈ table, e.2.length < 2 ^ 25)
    {k : Key} {n : Nonce} {c : Bytes} (h : ((tableCrates table).aeadDecrypt k n c).isSome = true) :
    ∃ plain, (n, plain) ∈ table ∧ (tableCrates table).aeadEncrypt k n plain = some c := by
  obtain ⟨plain, hp⟩ := Option.isSome_iff_exists.mp h
  obtain ⟨hdec, hmem⟩ := Option.filter_eq_some_iff.mp hp
  have hmem : (n, plain) ∈ table := by simpa using hmem
  unfold Bincode.aeadDecrypt at hdec
  split at hdec
  · rename_i htag
    cases hdec
    refine ⟨_, hmem, ?_⟩
    have := hshort _ hmem
    simp only [tableCrates, hmem, if_true, Bincode.aeadEncrypt]
    rw [if_pos this, ← htag, List.take_append_drop]
  · cases hdec

/-! ### One keystroke and one frame -/

def oneKeystroke : List ClientCall := [⟨2 ^ 32, 1, 0, .keystrokes [0x61]⟩]

/-- A frame in which only the cursor moved. -/
def cursorFrame : ServerPayload :=
  .frame { refSeq := 0, cols := 8, rows := 2, cursorX := 1, cursorY := 0, cursorVisible := true
           rowUpdates := [], isEchoEnabled := false }

def oneFrame : List ServerCall := [⟨2, 1, cursorFrame⟩]

/-- The two plaintexts and their nonces. -/
def honestTable : List (Nonce × Bytes) :=
  [(⟨1, 1⟩, [1, 1, 0x61]), (⟨1, 2⟩, [0, 1, 0, 8, 2, 1, 0, 1, 0, 0])]

def honestCodec : ChaChaCodec (tableCrates honestTable) :=
  ChaChaCodec.new (tableCrates honestTable) (Vector.replicate 32 0) (2 ^ 32)

theorem honestCodec_ideal : honestCodec.Ideal oneKeystroke oneFrame := by
  intro n ct h
  obtain ⟨plain, hmem, henc⟩ := tableCrates_decrypt (by decide) h
  refine ⟨plain, henc, ?_⟩
  rcases List.mem_cons.mp hmem with heq | hmem
  · cases heq
    exact .inl ⟨_, List.mem_cons_self .., rfl, rfl⟩
  · cases List.mem_singleton.mp hmem
    exact .inr ⟨_, List.mem_cons_self .., rfl, rfl⟩

/-- The keystroke's own datagram. -/
theorem open_authentic_keystroke :
    ∃ bytes ct st, honestCodec.sealClient (2 ^ 32) 1 0 (.keystrokes [0x61]) = .ok bytes ∧
      honestCodec.openClient bytes = .ok (⟨2 ^ 32, 1, 0, ct⟩, .keystrokes [0x61], st) ∧
      ((∃ call ∈ oneKeystroke, call.seq = 1 ∧ call.payload = .keystrokes [0x61] ∧
        (call.sessionId = 2 ^ 32 ∨ honestCodec.crypto.salt = 0)) ∨
      (∃ call ∈ oneFrame, call.seq = 1 ∧
        ∃ plain, serializeCompressed (tableCrates honestTable) (tableCrates honestTable).serverPayload
          call.payload = .ok plain ∧
          deserialize (tableCrates honestTable).clientPayload plain = .ok (.keystrokes [0x61]))) := by
  obtain ⟨bytes, hseal⟩ : ∃ bytes,
    honestCodec.sealClient (2 ^ 32) 1 0 (.keystrokes [0x61]) = .ok bytes := ⟨_, rfl⟩
  obtain ⟨ct, st, hopen⟩ := openClient_sealClient (tableCrates_lawful honestTable)
    (d := honestCodec) ⟨rfl, rfl, rfl⟩ (.inr rfl) hseal
  exact ⟨bytes, ct, st, hseal, hopen, (open_authentic (tableCrates_lawful honestTable)
    (Vector.replicate 32 0) (2 ^ 32) oneKeystroke oneFrame (by decide) honestCodec_ideal).1 _ _ _ _ hopen⟩

/-- A ciphertext of the table. -/
def sealedBytes (e : Nonce × Bytes) : Bytes := Bincode.tag e.1 ++ e.2

/-- Under an ideal cipher, the keystroke's datagram with another ack in its header is accepted by the
    server and the frame's by the client; and the frame's ciphertext, sent back under a client header,
    is accepted by the server, as a handshake. -/
theorem headers_not_authentic :
    honestCodec.Ideal oneKeystroke oneFrame ∧
    (∃ bytes w p st, honestCodec.openClient bytes = .ok (w, p, st) ∧
      w.ackSeqNum = 7 ∧ ⟨w.sessionId, w.seqNum, w.ackSeqNum, p⟩ ∉ oneKeystroke) ∧
    (∃ bytes w p st, (honestCodec.openServer bytes).2 = .ok (some (w, p, st)) ∧
      w.ackSeqNum = 7 ∧ ⟨w.seqNum, w.ackSeqNum, p⟩ ∉ oneFrame) ∧
    (∃ bytes w st, honestCodec.openClient bytes = .ok (w, .handshake 1 0 8, st)) := by
  let keys : EncryptedClientPacket := ⟨2 ^ 32, 1, 7, sealedBytes (⟨1, 1⟩, [1, 1, 0x61])⟩
  let frame : EncryptedServerPacket :=
    ⟨2, 7, 0, 1, sealedBytes (⟨1, 2⟩, [0, 1, 0, 8, 2, 1, 0, 1, 0, 0])⟩
  let back : EncryptedClientPacket := ⟨2 ^ 32, 2, 0, frame.ciphertext⟩
  refine ⟨honestCodec_ideal, ?_, ?_, ?_⟩
  · exact ⟨Bincode.clientPacket.put keys, keys, .keystrokes [0x61], ⟨31, 3, 3⟩,
      by decide +kernel, rfl, by decide⟩
  · exact ⟨Bincode.serverPacket.put frame, frame, cursorFrame, ⟨31, 10, 9⟩,
      by decide +kernel, rfl, by decide⟩
  · exact ⟨Bincode.clientPacket.put back, back, ⟨38, 10, 10⟩, by decide +kernel⟩

end ChaChaCodec

end Rumsh.Protocol
