import Rumsh.Protocol.Bincode
import Rumsh.Protocol.Reassembly

/-! `ChaChaCodec` round-trips: `sealClient` with `openClient`, and `sealServer` with `openServer`
    through the fragment buffer, for every order, loss and duplication of the datagrams.

    Everything the buffer does is in `Reassembly`; here it is run under the codec. The sealed
    ciphertexts of a family of payloads are the ledger, so soundness is `insert_holds` along the
    deliveries, and completion of one payload is `Collecting` along its fragments. -/

namespace Rumsh.Protocol
open Std Rumsh.Schemes PacketCodec

namespace ChaChaCodec
variable {cr : Crates}

/-- The key material two ends share; all that sealing and opening depend on but the buffer. -/
def SameKeys (c d : ChaChaCodec cr) : Prop :=
  c.crypto = d.crypto ∧ c.handshakeCrypto = d.handshakeCrypto ∧ c.sessionId = d.sessionId

theorem sameKeys_openServer (c : ChaChaCodec cr) (bytes : Bytes) :
    SameKeys (c.openServer bytes).1 c := by
  unfold openServer
  split
  · exact ⟨rfl, rfl, rfl⟩
  · split <;> exact ⟨rfl, rfl, rfl⟩

theorem sameKeys_fed (c : ChaChaCodec cr) (datagrams : List Bytes) : SameKeys (fed c datagrams) c := by
  induction datagrams using List.reverseRecOn with
  | nil => exact ⟨rfl, rfl, rfl⟩
  | append_singleton ds d ih =>
    obtain ⟨h₁, h₂, h₃⟩ := ih
    obtain ⟨k₁, k₂, k₃⟩ := sameKeys_openServer (fed c ds) d
    rw [fed, List.foldl_append]
    exact ⟨k₁.trans h₁, k₂.trans h₂, k₃.trans h₃⟩

/-! ### Client to server -/

/-- What a sealed client datagram is made of. -/
theorem sealClient_eq_ok {c : ChaChaCodec cr} {session seq ack : ℕ} {payload : ClientPayload}
    {bytes : Bytes} (h : c.sealClient session seq ack payload = .ok bytes) :
    ∃ plain ct, serialize cr.clientPayload payload = .ok plain ∧
      (if session = 0 then c.handshakeCrypto else c.crypto).encrypt cr seq plain = .ok ct ∧
      serialize cr.clientPacket ⟨session, seq, ack, ct⟩ = .ok bytes := by
  obtain ⟨plain, hplain, h⟩ := bind_eq_ok.mp h
  obtain ⟨ct, hct, h⟩ := bind_eq_ok.mp h
  exact ⟨plain, ct, hplain, hct, h⟩

/-- ROUND TRIP: the server opens what a client with the same keys sealed, header and payload. -/
theorem openClient_sealClient (hcr : cr.Lawful) {c d : ChaChaCodec cr} (hk : SameKeys c d)
    {session seq ack : ℕ} {payload : ClientPayload} {bytes : Bytes}
    (hs : session = 0 ∨ session = d.sessionId)
    (h : c.sealClient session seq ack payload = .ok bytes) :
    ∃ ct stats, d.openClient bytes = .ok (⟨session, seq, ack, ct⟩, payload, stats) := by
  obtain ⟨plain, ct, hplain, hct, hbytes⟩ := sealClient_eq_ok h
  obtain ⟨h₁, h₂, -⟩ := hk
  have hcrypto : d.cryptoFor session = .ok (if session = 0 then c.handshakeCrypto else c.crypto) := by
    rcases hs with rfl | rfl
    · simp [cryptoFor, h₂]
    · by_cases h0 : d.sessionId = 0 <;> simp [cryptoFor, h0, h₁, h₂]
  refine ⟨ct, ⟨bytes.length, plain.length, plain.length⟩, ?_⟩
  simp [openClient, deserialize_of_serialize hcr.clientPacket hbytes, hcrypto,
    CryptoManager.decrypt_encrypt hcr hct, deserialize_of_serialize hcr.clientPayload hplain, bind,
    Except.bind, pure, Except.pure]

/-! ### Server to client -/

/-- What the datagrams of a sealed server payload are made of. -/
theorem sealServer_eq_ok {c : ChaChaCodec cr} {seq ack : ℕ} {payload : ServerPayload}
    {datagrams : List Bytes} (h : c.sealServer seq ack payload = .ok datagrams) :
    ∃ plain ct, serializeCompressed cr cr.serverPayload payload = .ok plain ∧
      c.crypto.encrypt cr seq plain = .ok ct ∧
      (fragmentPackets seq ack ct).mapM (serialize cr.serverPacket) = .ok datagrams := by
  obtain ⟨plain, hplain, h⟩ := bind_eq_ok.mp h
  obtain ⟨ct, hct, h⟩ := bind_eq_ok.mp h
  exact ⟨plain, ct, hplain, hct, h⟩

/-- Serializing packets never fails. -/
theorem serialize_packets (hcr : cr.Lawful) : ∀ packets : List EncryptedServerPacket,
    ∃ datagrams, packets.mapM (serialize cr.serverPacket) = .ok datagrams
  | [] => ⟨[], rfl⟩
  | pkt :: rest => by
      obtain ⟨b, hb⟩ := serialize_ok hcr.serverPacket pkt
      obtain ⟨bs, hbs⟩ := serialize_packets hcr rest
      exact ⟨b :: bs, by simp [List.mapM_cons, hb, hbs, bind, Except.bind, pure, Except.pure]⟩

/-- A `KeepAlive` can always be sealed. -/
theorem sealServer_keepAlive (hcr : cr.Lawful) (hshort : cr.SealsShort) (c : ChaChaCodec cr)
    (seq ack : ℕ) : ∃ datagrams, c.sealServer seq ack .keepAlive = .ok datagrams := by
  obtain ⟨ct, hct⟩ := hshort.aeadEncrypt_isSome c.crypto.key (c.crypto.makeNonce seq) [0, 2] (by simp)
  obtain ⟨datagrams, hd⟩ := serialize_packets hcr (fragmentPackets seq ack ct)
  refine ⟨datagrams, ?_⟩
  simp [sealServer, serializeCompressed, serialize, hshort.encode_keepAlive, CryptoManager.encrypt, hct,
    hd, bind, Except.bind, pure, Except.pure]

/-- A datagram of a sealed payload deserializes to one of its fragments. -/
theorem deserialize_mem_fragmentPackets (hcr : cr.Lawful) {packets : List EncryptedServerPacket}
    {datagrams : List Bytes} (h : packets.mapM (serialize cr.serverPacket) = .ok datagrams)
    {bytes : Bytes} (hb : bytes ∈ datagrams) :
    ∃ pkt ∈ packets, deserialize cr.serverPacket bytes = .ok pkt := by
  obtain ⟨pkt, hpkt, hser⟩ := exists_of_mem_right (forall₂_of_mapM h) hb
  exact ⟨pkt, hpkt, deserialize_of_serialize hcr.serverPacket hser⟩

theorem length_of_mapM {packets : List EncryptedServerPacket} {datagrams : List Bytes}
    (h : packets.mapM (serialize cr.serverPacket) = .ok datagrams) :
    packets.length = datagrams.length := (forall₂_of_mapM h).length_eq

/-- Every datagram of a payload carries the ack it was sealed with. -/
theorem ackSeqNum_of_sealServer (hcr : cr.Lawful) {c : ChaChaCodec cr} {seq ack : ℕ}
    {payload : ServerPayload} {datagrams : List Bytes} {bytes : Bytes} {pkt : EncryptedServerPacket}
    (h : c.sealServer seq ack payload = .ok datagrams) (hb : bytes ∈ datagrams)
    (hd : deserialize cr.serverPacket bytes = .ok pkt) : pkt.ackSeqNum = ack := by
  obtain ⟨plain, ct, -, -, hmap⟩ := sealServer_eq_ok h
  obtain ⟨pkt', hmem, hd'⟩ := deserialize_mem_fragmentPackets hcr hmap hb
  rw [hd'] at hd
  cases hd
  unfold fragmentPackets at hmem
  split at hmem
  · rw [List.mem_singleton.mp hmem]
  · obtain ⟨x, -, rfl⟩ := List.mem_map.mp hmem
    rfl

theorem sealServer_ne_nil {c : ChaChaCodec cr} {seq ack : ℕ} {payload : ServerPayload}
    {datagrams : List Bytes} (h : c.sealServer seq ack payload = .ok datagrams) : datagrams ≠ [] := by
  obtain ⟨plain, ct, -, -, hmap⟩ := sealServer_eq_ok h
  have hlen := length_of_mapM hmap
  by_cases hl : FRAGMENT_PAYLOAD_SIZE < ct.length
  · rw [length_fragmentPackets hl, fragmentCount] at hlen
    have hpos : 0 < chunkCount FRAGMENT_PAYLOAD_SIZE ct :=
      Nat.div_pos (by unfold FRAGMENT_PAYLOAD_SIZE at *; omega) size_pos
    rintro rfl
    rw [hlen] at hpos
    exact absurd hpos (Nat.lt_irrefl 0)
  · rw [fragmentPackets, if_pos (Nat.not_lt.mp hl)] at hlen
    rintro rfl
    cases hlen

/-- What the client's side returns has the ack of the datagram that completed it. -/
theorem ackSeqNum_of_openServer {c : ChaChaCodec cr} {bytes : Bytes} {pkt : EncryptedServerPacket}
    {payload : ServerPayload} {stats : CodecStats}
    (h : (c.openServer bytes).2 = .ok (some (pkt, payload, stats))) :
    ∃ wire, deserialize cr.serverPacket bytes = .ok wire ∧ pkt.ackSeqNum = wire.ackSeqNum := by
  unfold openServer at h
  split at h
  · cases h
  · rename_i wire hwire
    refine ⟨wire, hwire, ?_⟩
    split at h
    · cases h
    · rename_i buf packet ct wireLen hins
      have hack : packet.ackSeqNum = wire.ackSeqNum := by
        unfold FragmentBuffer.insert at hins
        split at hins
        · cases hins
          rfl
        · dsimp only at hins
          split at hins <;> cases hins
          rfl
      cases hopen : c.openComplete packet ct wireLen with
      | error e => simp [hopen, Except.map] at h
      | ok r =>
        rw [hopen] at h
        cases h
        obtain ⟨plain, -, hopen⟩ := bind_eq_ok.mp hopen
        obtain ⟨r, -, hopen⟩ := bind_eq_ok.mp hopen
        cases hopen
        exact hack

/-- A ciphertext sent in at most 65535 datagrams has at most that many fragments. -/
theorem fragmentCount_le {seq ack : ℕ} {ct : Bytes} {datagrams : List Bytes}
    (h : (fragmentPackets seq ack ct).mapM (serialize cr.serverPacket) = .ok datagrams)
    (hlen : datagrams.length ≤ 65535) : fragmentCount ct ≤ 65535 := by
  by_cases hl : FRAGMENT_PAYLOAD_SIZE < ct.length
  · rw [← length_fragmentPackets hl, length_of_mapM h]
    exact hlen
  · have : ct.length + 1024 - 1 ≤ 65535 * 1024 := by
      unfold FRAGMENT_PAYLOAD_SIZE at hl
      omega
    exact Nat.div_le_of_le_mul (by rw [Nat.mul_comm]; exact this)

/-- A datagram of a long ciphertext is one of its fragments. -/
theorem fragment_of_mem (hcr : cr.Lawful) {seq ack : ℕ} {ct : Bytes} {datagrams : List Bytes}
    (hlong : FRAGMENT_PAYLOAD_SIZE < ct.length) (hmax : fragmentCount ct ≤ 65535)
    (hmap : (fragmentPackets seq ack ct).mapM (serialize cr.serverPacket) = .ok datagrams)
    {bytes : Bytes} (hb : bytes ∈ datagrams) :
    ∃ i < fragmentCount ct, deserialize cr.serverPacket bytes = .ok (fragment seq ack ct i) := by
  obtain ⟨pkt, hpkt, hdes⟩ := deserialize_mem_fragmentPackets hcr hmap hb
  rcases (mem_fragmentPackets hmax).mp hpkt with ⟨hle, -⟩ | ⟨-, i, hi, rfl⟩
  · omega
  · exact ⟨i, hi, hdes⟩

theorem fragment_inj {seq ack : ℕ} {ct : Bytes} {i j : ℕ} :
    fragment seq ack ct i = fragment seq ack ct j ↔ i = j :=
  ⟨fun h => congrArg EncryptedServerPacket.fragIdx h, fun h => h ▸ rfl⟩

/-- Two datagrams of one payload that deserialize to the same fragment are the same bytes. -/
theorem datagram_inj (hcr : cr.Lawful) {packets : List EncryptedServerPacket}
    {datagrams : List Bytes} (h : packets.mapM (serialize cr.serverPacket) = .ok datagrams)
    {x y : Bytes} (hx : x ∈ datagrams) (hy : y ∈ datagrams)
    (heq : deserialize cr.serverPacket x = deserialize cr.serverPacket y) : x = y := by
  obtain ⟨p, -, hp⟩ := exists_of_mem_right (forall₂_of_mapM h) hx
  obtain ⟨q, -, hq⟩ := exists_of_mem_right (forall₂_of_mapM h) hy
  rw [deserialize_of_serialize hcr.serverPacket hp, deserialize_of_serialize hcr.serverPacket hq] at heq
  cases heq
  exact Except.ok.inj (hp.symm.trans hq)

/-- The full ciphertext opens to the payload that was sealed. -/
theorem openComplete_sealed (hcr : cr.Lawful) {c d : ChaChaCodec cr} (hk : d.crypto = c.crypto)
    {seq : ℕ} {payload : ServerPayload} {plain ct : Bytes}
    (hplain : serializeCompressed cr cr.serverPayload payload = .ok plain)
    (hct : c.crypto.encrypt cr seq plain = .ok ct) {pkt : EncryptedServerPacket}
    (hseq : pkt.seqNum = seq) (wireLen : ℕ) :
    ∃ stats, d.openComplete pkt ct wireLen = .ok (pkt, payload, stats) := by
  obtain ⟨n, m, hd⟩ := deserializeCompressed_serializeCompressed hcr hcr.serverPayload hplain
  refine ⟨⟨wireLen, n, m⟩, ?_⟩
  simp [openComplete, hk, hseq, CryptoManager.decrypt_encrypt hcr hct, hd, bind, Except.bind, pure,
    Except.pure]

/-- Opening a datagram that is a fragment: the buffer decides. -/
theorem openServer_eq {c : ChaChaCodec cr} {bytes : Bytes} {pkt : EncryptedServerPacket}
    (h : deserialize cr.serverPacket bytes = .ok pkt) :
    (c.openServer bytes).1.fragmentBuffer = (c.fragmentBuffer.insert pkt bytes.length).1 ∧
    (c.openServer bytes).2 = match (c.fragmentBuffer.insert pkt bytes.length).2 with
      | none => .ok none
      | some (packet, ct, wireLen) => (c.openComplete packet ct wireLen).map some := by
  simp only [openServer, h]
  rcases c.fragmentBuffer.insert pkt bytes.length with ⟨buf, _ | ⟨packet, ct, wireLen⟩⟩ <;>
    exact ⟨rfl, rfl⟩

/-- The datagram that completes a ciphertext returns its payload. -/
theorem openServer_of_insert (hcr : cr.Lawful) {c d : ChaChaCodec cr} (hk : d.crypto = c.crypto)
    {seq : ℕ} {payload : ServerPayload} {plain ct : Bytes}
    (hplain : serializeCompressed cr cr.serverPayload payload = .ok plain)
    (hct : c.crypto.encrypt cr seq plain = .ok ct) {bytes : Bytes} {pkt wire : EncryptedServerPacket}
    {len : ℕ} (hdes : deserialize cr.serverPacket bytes = .ok wire) (hseq : pkt.seqNum = seq)
    (hins : (d.fragmentBuffer.insert wire bytes.length).2 = some (pkt, ct, len)) :
    ∃ stats, (d.openServer bytes).2 = .ok (some (pkt, payload, stats)) := by
  obtain ⟨stats, hopen⟩ := openComplete_sealed hcr hk hplain hct hseq len
  refine ⟨stats, ?_⟩
  rw [(openServer_eq hdes).2, hins]
  simp [hopen, Except.map]

/-! ### Soundness under any deliveries -/

/-- The ciphertexts of a family of payloads. -/
def ledger (c : ChaChaCodec cr) (fam : ℕ → ℕ × ServerPayload) (seq : ℕ) (ct : Bytes) : Prop :=
  ∃ plain, serializeCompressed cr cr.serverPayload (fam seq).2 = .ok plain ∧
    c.crypto.encrypt cr seq plain = .ok ct

theorem ledger_functional (c : ChaChaCodec cr) (fam : ℕ → ℕ × ServerPayload) (seq : ℕ)
    (ct ct' : Bytes) (h : c.ledger fam seq ct) (h' : c.ledger fam seq ct') : ct = ct' := by
  obtain ⟨plain, hp, hc⟩ := h
  obtain ⟨plain', hp', hc'⟩ := h'
  rw [hp] at hp'
  cases hp'
  rw [hc] at hc'
  exact Except.ok.inj hc'

variable {server client : ChaChaCodec cr} {fam : ℕ → ℕ × ServerPayload}

/-- STEP: a sealed datagram keeps the buffer true to the ledger, and what it completes is the
    family's member under its number. -/
theorem openServer_step (hcr : cr.Lawful) (hk : client.crypto = server.crypto)
    (hfit : ∀ s datagrams, server.sealServer s (fam s).1 (fam s).2 = .ok datagrams →
      datagrams.length ≤ 65535)
    (hbuf : FragmentBuffer.Holds (server.ledger fam) client.fragmentBuffer) {bytes : Bytes}
    (hb : Sealed server fam bytes) :
    FragmentBuffer.Holds (server.ledger fam) (client.openServer bytes).1.fragmentBuffer ∧
      ∀ packet payload stats, (client.openServer bytes).2 = .ok (some (packet, payload, stats)) →
        fam packet.seqNum = (packet.ackSeqNum, payload) := by
  obtain ⟨s, datagrams, hseal, hmem⟩ := hb
  obtain ⟨plain, ct, hplain, hct, hmap⟩ := sealServer_eq_ok hseal
  obtain ⟨pkt, hpkt, hdes⟩ := deserialize_mem_fragmentPackets hcr hmap hmem
  have hmax := fragmentCount_le hmap (hfit s datagrams hseal)
  obtain ⟨hholds, hout⟩ := FragmentBuffer.insert_holds (ledger_functional server fam) hbuf
    ⟨plain, hplain, hct⟩ hmax hpkt bytes.length
  obtain ⟨heq₁, heq₂⟩ := openServer_eq (c := client) hdes
  refine ⟨heq₁ ▸ hholds, fun packet payload stats hsome => ?_⟩
  rw [heq₂] at hsome
  cases hins : (client.fragmentBuffer.insert pkt bytes.length).2 with
  | none => simp [hins] at hsome
  | some r =>
    obtain ⟨hs, ha, hc⟩ := hout r hins
    obtain ⟨stats', hopen⟩ := openComplete_sealed hcr hk hplain hct hs r.2.2
    rw [hins] at hsome
    simp only [hc, hopen, Except.map, Except.ok.injEq, Option.some.injEq, Prod.mk.injEq] at hsome
    obtain ⟨rfl, rfl, -⟩ := hsome
    rw [hs, ha]

/-- RUN: after any deliveries of sealed datagrams the buffer is true to the ledger. -/
theorem fed_holds (hcr : cr.Lawful) (hk : client.crypto = server.crypto)
    (hempty : client.fragmentBuffer.frames.isEmpty = true)
    (hfit : ∀ s datagrams, server.sealServer s (fam s).1 (fam s).2 = .ok datagrams →
      datagrams.length ≤ 65535) (datagrams : List Bytes)
    (h : ∀ x ∈ datagrams, Sealed server fam x) :
    FragmentBuffer.Holds (server.ledger fam) (fed client datagrams).fragmentBuffer := by
  induction datagrams using List.reverseRecOn with
  | nil =>
    intro seq entry he
    simp only [fed, List.foldl_nil, TreeMap.getElem?_of_isEmpty hempty] at he
    cases he
  | append_singleton ds d ih =>
    have hd : (fed client ds).crypto = server.crypto := (sameKeys_fed client ds).1.trans hk
    have := openServer_step hcr hd hfit (ih fun x hx => h x (List.mem_append_left _ hx))
      (h d (by simp))
    rw [fed, List.foldl_append]
    exact this.1

/-- SOUND: whatever the client's side returns, after any deliveries, is what was sealed under its
    number. -/
theorem openServer_sound (hcr : cr.Lawful) (hk : client.crypto = server.crypto)
    (hempty : client.fragmentBuffer.frames.isEmpty = true)
    (hfit : ∀ s datagrams, server.sealServer s (fam s).1 (fam s).2 = .ok datagrams →
      datagrams.length ≤ 65535) {datagrams : List Bytes} {bytes : Bytes}
    (h : ∀ x ∈ bytes :: datagrams, Sealed server fam x) {packet : EncryptedServerPacket}
    {payload : ServerPayload} {stats : CodecStats}
    (hsome : ((fed client datagrams).openServer bytes).2 = .ok (some (packet, payload, stats))) :
    fam packet.seqNum = (packet.ackSeqNum, payload) := by
  have hd : (fed client datagrams).crypto = server.crypto := (sameKeys_fed client datagrams).1.trans hk
  have hbuf := fed_holds hcr hk hempty hfit datagrams fun x hx => h x (List.mem_cons_of_mem _ hx)
  exact (openServer_step hcr hd hfit hbuf (h bytes (List.mem_cons_self ..))).2 _ _ _ hsome

/-- The codec of either end of a lawful session satisfies the law, as long as nothing it seals needs
    more than 65535 datagrams. -/
theorem roundTrips (hcr : cr.Lawful) (key : Key) (sid : ℕ)
    (hfit : ∀ seq ack payload datagrams,
      (ChaChaCodec.new cr key sid).sealServer seq ack payload = .ok datagrams →
      datagrams.length ≤ 65535) :
    RoundTrips sid (ChaChaCodec.new cr key sid) (ChaChaCodec.new cr key sid) where
  openClient _ _ _ _ _ _ hs h := openClient_sealClient hcr (sameKeys_fed _ _) hs h
  openServer _ _ _ _ _ _ h hsome :=
    openServer_sound hcr rfl rfl (fun _ _ hseal => hfit _ _ _ _ hseal) h hsome

/-! ### Completion of one payload -/

variable {seq ack : ℕ} {payload : ServerPayload} {plain ct : Bytes} {datagrams : List Bytes}

/-- RUN: as long as one fragment is missing, every delivery answers `None` and the buffer collects
    exactly the fragments delivered. -/
theorem fed_collecting (hcr : cr.Lawful) (hlong : FRAGMENT_PAYLOAD_SIZE < ct.length)
    (hmax : fragmentCount ct ≤ 65535)
    (hmap : (fragmentPackets seq ack ct).mapM (serialize cr.serverPacket) = .ok datagrams)
    (hempty : client.fragmentBuffer.frames.isEmpty = true) (pre : List Bytes)
    (hsub : ∀ x ∈ pre, x ∈ datagrams) (hmiss : ∃ x ∈ datagrams, x ∉ pre) :
    FragmentBuffer.Collecting seq ct
      (fun i => ∃ x ∈ pre, deserialize cr.serverPacket x = .ok (fragment seq ack ct i))
      (fed client pre).fragmentBuffer := by
  induction pre using List.reverseRecOn with
  | nil => simpa [fed] using FragmentBuffer.collecting_empty hempty seq ct
  | append_singleton pre d ih =>
    obtain ⟨x, hx, hnot⟩ := hmiss
    have hcol := ih (fun y hy => hsub y (List.mem_append_left _ hy))
      ⟨x, hx, fun h => hnot (List.mem_append_left _ h)⟩
    obtain ⟨i, hi, hdes⟩ := fragment_of_mem hcr hlong hmax hmap (hsub d (by simp))
    obtain ⟨j, hj, hdesx⟩ := fragment_of_mem hcr hlong hmax hmap hx
    have hgot : ∀ k, (k = i ∨ ∃ y ∈ pre, deserialize cr.serverPacket y = .ok (fragment seq ack ct k)) ↔
        ∃ y ∈ pre ++ [d], deserialize cr.serverPacket y = .ok (fragment seq ack ct k) := by
      intro k
      simp only [List.mem_append, List.mem_singleton, or_and_right, exists_or, exists_eq_left, hdes,
        Except.ok.injEq, fragment_inj]
      rw [or_comm, eq_comm]
    have hmissing : ¬ (j = i ∨ ∃ y ∈ pre, deserialize cr.serverPacket y = .ok (fragment seq ack ct j)) := by
      rw [hgot]
      rintro ⟨y, hy, hdesy⟩
      have : y ∈ datagrams := hsub y hy
      exact hnot (datagram_inj hcr hmap hx this (hdesx.trans hdesy.symm) ▸ hy)
    have hins := (hcol.insert_missing ack hlong hi ⟨j, hj, hmissing⟩ d.length).2
    rw [← (openServer_eq (c := fed client pre) hdes).1] at hins
    rw [fed, List.foldl_append]
    exact (funext fun k => propext (hgot k)) ▸ hins

/-- A short payload is one datagram, and opens at once. -/
theorem openServer_short (hcr : cr.Lawful) (hk : client.crypto = server.crypto)
    (hplain : serializeCompressed cr cr.serverPayload payload = .ok plain)
    (hct : server.crypto.encrypt cr seq plain = .ok ct) (hle : ct.length ≤ FRAGMENT_PAYLOAD_SIZE)
    (hmap : (fragmentPackets seq ack ct).mapM (serialize cr.serverPacket) = .ok datagrams)
    {d : Bytes} (hd : d ∈ datagrams) :
    ∃ pkt stats, (client.openServer d).2 = .ok (some (pkt, payload, stats)) ∧
      pkt.seqNum = seq ∧ pkt.ackSeqNum = ack := by
  obtain ⟨pkt, hpkt, hdes⟩ := deserialize_mem_fragmentPackets hcr hmap hd
  obtain rfl : pkt = ⟨seq, ack, 0, 1, ct⟩ := by simpa [fragmentPackets, hle] using hpkt
  have hins : (client.fragmentBuffer.insert ⟨seq, ack, 0, 1, ct⟩ d.length).2 =
      some (⟨seq, ack, 0, 1, ct⟩, ct, d.length) := by
    simp [FragmentBuffer.insert]
  obtain ⟨stats, hopen⟩ := openServer_of_insert hcr hk hplain hct hdes rfl hins
  exact ⟨⟨seq, ack, 0, 1, ct⟩, stats, hopen, rfl, rfl⟩

/-- The last missing fragment of a long payload opens it. -/
theorem openServer_last (hcr : cr.Lawful) (hk : client.crypto = server.crypto)
    (hplain : serializeCompressed cr cr.serverPayload payload = .ok plain)
    (hct : server.crypto.encrypt cr seq plain = .ok ct) (hlong : FRAGMENT_PAYLOAD_SIZE < ct.length)
    {got : ℕ → Prop} (hcol : FragmentBuffer.Collecting seq ct got client.fragmentBuffer) {d : Bytes}
    {i : ℕ} (hi : i < fragmentCount ct)
    (hdes : deserialize cr.serverPacket d = .ok (fragment seq ack ct i))
    (hall : ∀ j < fragmentCount ct, j = i ∨ got j) :
    ∃ pkt stats, (client.openServer d).2 = .ok (some (pkt, payload, stats)) ∧
      pkt.seqNum = seq ∧ pkt.ackSeqNum = ack := by
  obtain ⟨pkt, len, hins, hs, ha⟩ := hcol.insert_last ack hlong hi hall d.length
  obtain ⟨stats, hopen⟩ := openServer_of_insert hcr hk hplain hct hdes hs hins
  exact ⟨pkt, stats, hopen, hs, ha⟩

/-- COMPLETE: the datagrams of one payload, in any order and with repetitions, answer `None` until
    the last missing one, and then the payload. -/
theorem openServer_complete (hcr : cr.Lawful) (hk : client.crypto = server.crypto)
    (hempty : client.fragmentBuffer.frames.isEmpty = true)
    (hseal : server.sealServer seq ack payload = .ok datagrams) (hlen : datagrams.length ≤ 65535)
    {pre : List Bytes} {d : Bytes} (hsub : ∀ x ∈ pre, x ∈ datagrams) (hd : d ∈ datagrams)
    (hmiss : ∃ x ∈ datagrams, x ∉ pre) :
    ((∃ x ∈ datagrams, x ∉ pre ++ [d]) → ((fed client pre).openServer d).2 = .ok none) ∧
    ((∀ x ∈ datagrams, x ∈ pre ++ [d]) →
      ∃ pkt stats, ((fed client pre).openServer d).2 = .ok (some (pkt, payload, stats)) ∧
        pkt.seqNum = seq ∧ pkt.ackSeqNum = ack) := by
  obtain ⟨plain, ct, hplain, hct, hmap⟩ := sealServer_eq_ok hseal
  have hmax := fragmentCount_le hmap hlen
  have hk' : (fed client pre).crypto = server.crypto := (sameKeys_fed client pre).1.trans hk
  by_cases hlong : FRAGMENT_PAYLOAD_SIZE < ct.length
  · have hcol := fed_collecting hcr hlong hmax hmap hempty pre hsub hmiss
    obtain ⟨i, hi, hdes⟩ := fragment_of_mem hcr hlong hmax hmap hd
    constructor
    · rintro ⟨x, hx, hnot⟩
      obtain ⟨j, hj, hdesx⟩ := fragment_of_mem hcr hlong hmax hmap hx
      have hmissing : ¬ (j = i ∨
          ∃ y ∈ pre, deserialize cr.serverPacket y = .ok (fragment seq ack ct j)) := by
        rintro (rfl | ⟨y, hy, hdesy⟩)
        · exact hnot (by simp [datagram_inj hcr hmap hx hd (hdesx.trans hdes.symm)])
        · have := datagram_inj hcr hmap hx (hsub y hy) (hdesx.trans hdesy.symm)
          exact hnot (by simp [this, hy])
      rw [(openServer_eq hdes).2, (hcol.insert_missing ack hlong hi ⟨j, hj, hmissing⟩ _).1]
    · intro hall
      refine openServer_last hcr hk' hplain hct hlong hcol hi hdes fun j hj => ?_
      obtain ⟨x, hx, hser⟩ := exists_of_mem_left (forall₂_of_mapM hmap)
        ((mem_fragmentPackets hmax).mpr (.inr ⟨hlong, j, hj, rfl⟩))
      have hdesx := deserialize_of_serialize hcr.serverPacket hser
      rcases List.mem_append.mp (hall x hx) with hx | hx
      · exact .inr ⟨x, hx, hdesx⟩
      · obtain rfl := List.mem_singleton.mp hx
        exact .inl (fragment_inj.mp (Except.ok.inj (hdesx.symm.trans hdes)))
  · have hle := Nat.not_lt.mp hlong
    refine ⟨?_, fun _ => openServer_short hcr hk' hplain hct hle hmap hd⟩
    rintro ⟨x, hx, hnot⟩
    -- one datagram only: nothing can still be missing
    have : datagrams.length = 1 := by rw [← length_of_mapM hmap]; simp [fragmentPackets, hle]
    obtain ⟨y, rfl⟩ := List.length_eq_one_iff.mp this
    simp_all

/-- ROUND TRIP: between a server and a client of one session, any deliveries of the datagrams of a
    family of payloads return only members of that family under their own numbers, and the datagrams
    of one payload return it exactly when the last of them is in. -/
theorem openServer_sealServer (hcr : cr.Lawful) (server client : ChaChaCodec cr)
    (hk : SameKeys client server) (hempty : client.fragmentBuffer.frames.isEmpty = true) :
    (∀ fam : ℕ → ℕ × ServerPayload,
      (∀ s datagrams, server.sealServer s (fam s).1 (fam s).2 = .ok datagrams →
        datagrams.length ≤ 65535) →
      ∀ datagrams bytes, (∀ x ∈ bytes :: datagrams, Sealed server fam x) →
      ∀ packet payload stats,
        ((fed client datagrams).openServer bytes).2 = .ok (some (packet, payload, stats)) →
        fam packet.seqNum = (packet.ackSeqNum, payload)) ∧
    (∀ seq ack payload datagrams, server.sealServer seq ack payload = .ok datagrams →
      datagrams.length ≤ 65535 →
      ∀ pre d, (∀ x ∈ pre, x ∈ datagrams) → d ∈ datagrams → (∃ x ∈ datagrams, x ∉ pre) →
        ((∃ x ∈ datagrams, x ∉ pre ++ [d]) → ((fed client pre).openServer d).2 = .ok none) ∧
        ((∀ x ∈ datagrams, x ∈ pre ++ [d]) →
          ∃ pkt stats, ((fed client pre).openServer d).2 = .ok (some (pkt, payload, stats)) ∧
            pkt.seqNum = seq ∧ pkt.ackSeqNum = ack)) := by
  refine ⟨fun fam hfit datagrams bytes h packet payload stats hsome => ?_,
    fun seq ack payload datagrams hseal hlen pre d hsub hd hmiss => ?_⟩
  · exact openServer_sound hcr hk.1 hempty hfit h hsome
  · exact openServer_complete hcr hk.1 hempty hseal hlen hsub hd hmiss

/-- A row of 40 coloured cells: compressed, and long enough for two datagrams. -/
def wideFrame : ServerPayload :=
  let cell := { blankCell with fg := some ⟨255, 0, 0⟩, bg := some ⟨0, 0, 255⟩ }
  .frame { refSeq := 0, cols := 40, rows := 1, cursorX := 0, cursorY := 0, cursorVisible := true
           rowUpdates := [{ y := 0, cells := (List.range 40).map (⟨·, cell⟩), isWrapped := false }]
           isEchoEnabled := false }

theorem openServer_sealServer_wideFrame :
    let server := ChaChaCodec.new Bincode.crates (Vector.replicate 32 0) (9 * 2 ^ 32)
    ∃ d₁ d₂, server.sealServer 5 3 wideFrame = .ok [d₁, d₂] ∧ d₁ ≠ d₂ ∧
      (server.openServer d₂).2 = .ok none ∧
      ∃ pkt stats, ((fed server [d₂]).openServer d₁).2 = .ok (some (pkt, wideFrame, stats)) ∧
        pkt.seqNum = 5 ∧ pkt.ackSeqNum = 3 := by
  intro server
  let ds := (server.sealServer 5 3 wideFrame).toOption.getD []
  have hseal : server.sealServer 5 3 wideFrame = .ok [ds.getD 0 [], ds.getD 1 []] := by decide +kernel
  have hne : ds.getD 0 [] ≠ ds.getD 1 [] := by decide +kernel
  have h := (openServer_sealServer Bincode.crates_lawful server server ⟨rfl, rfl, rfl⟩ rfl).2
    5 3 wideFrame _ hseal (by decide)
  refine ⟨_, _, hseal, hne, ?_, ?_⟩
  · exact (h [] (ds.getD 1 []) (by simp) (by simp) ⟨ds.getD 0 [], by simp⟩).1
      ⟨ds.getD 0 [], by simp, by simpa using hne⟩
  · exact (h [ds.getD 1 []] (ds.getD 0 []) (by simp) (by simp)
      ⟨ds.getD 0 [], by simp, by simpa using hne⟩).2 (by simp)

end ChaChaCodec

end Rumsh.Protocol
