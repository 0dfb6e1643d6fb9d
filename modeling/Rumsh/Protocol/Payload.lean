import Mathlib.Data.List.Basic
import Rumsh.Protocol.Grid

/-! The wire envelope of `src/protocol.rs` and the crypto of `src/crypto.rs`.

    Three third-party crates do the byte work: `bincode` serializes, `lz4_flex` compresses and
    `chacha20poly1305` seals. They are a parameter, `Crates`; what the program relies on is the
    structure `Crates.Lawful`. Everything else here is the program's own: the payload enums, the two
    packet headers, the compression flag byte, and the nonce built from a session salt and a
    sequence number. -/

namespace Rumsh.Protocol

inductive ClientPayload where
  | handshake (clientVersion cols rows : ℕ)
  | keystrokes (keys : Bytes)
  | resize (cols rows : ℕ)
  | keepAlive
  | ack
  | fragmentNack (frameSeq : ℕ) (receivedMask : List ℕ)
  deriving DecidableEq, Repr

/-- The payloads the client numbers and resends. -/
def isReliable : ClientPayload → Bool
  | .keystrokes _ => true
  | .resize _ _ => true
  | .keepAlive => true
  | _ => false

inductive ServerPayload where
  | handshakeAck (sessionId : ℕ)
  | frame (update : FrameUpdate)
  | keepAlive
  | shutdown
  deriving DecidableEq, Repr

structure EncryptedClientPacket where
  sessionId : ℕ
  seqNum : ℕ
  ackSeqNum : ℕ
  ciphertext : Bytes
  deriving DecidableEq, Repr

structure EncryptedServerPacket where
  seqNum : ℕ
  ackSeqNum : ℕ
  fragIdx : ℕ
  totalFrags : ℕ
  ciphertext : Bytes
  deriving DecidableEq, Repr

def FRAGMENT_PAYLOAD_SIZE : ℕ := 1024

/-! ### Third-party crates -/

/-- A 32-byte ChaCha20-Poly1305 key. -/
abbrev Key := Vector UInt8 32

/-- A 12-byte nonce, kept as the two numbers whose big-endian bytes it is: `salt[4] ++ seq_num[8]`. -/
structure Nonce where
  salt : ℕ
  seqNum : ℕ
  deriving DecidableEq, Repr

/-- One `bincode` instance: `encode_to_vec`, and `borrow_decode_from_slice` without the count of
    bytes it consumed. -/
structure Serde (α : Type) where
  encode : α → Option Bytes
  decode : Bytes → Option α

/-- Every value is encoded, and decodes to itself. -/
def Serde.RoundTrips {α : Type} (d : Serde α) : Prop :=
  ∀ a, ∃ b, d.encode a = some b ∧ d.decode b = some a

/-- The functions of `bincode`, `lz4_flex` and `chacha20poly1305` the program calls. -/
structure Crates where
  clientPayload : Serde ClientPayload
  serverPayload : Serde ServerPayload
  clientPacket : Serde EncryptedClientPacket
  serverPacket : Serde EncryptedServerPacket
  compressPrependSize : Bytes → Bytes
  decompressSizePrepended : Bytes → Option Bytes
  aeadEncrypt : Key → Nonce → Bytes → Option Bytes
  aeadDecrypt : Key → Nonce → Bytes → Option Bytes

/-- What the program relies on: each crate undoes what it did. -/
structure Crates.Lawful (cr : Crates) : Prop where
  clientPayload : cr.clientPayload.RoundTrips
  serverPayload : cr.serverPayload.RoundTrips
  clientPacket : cr.clientPacket.RoundTrips
  serverPacket : cr.serverPacket.RoundTrips
  decompress_compress : ∀ p, cr.decompressSizePrepended (cr.compressPrependSize p) = some p
  aeadDecrypt_aeadEncrypt : ∀ k n p c, cr.aeadEncrypt k n p = some c → cr.aeadDecrypt k n c = some p

/-- Small payloads can be sealed. ChaCha20-Poly1305 refuses only a plaintext beyond `2^38 - 64` bytes,
    and a unit variant is its index, one byte. -/
structure Crates.SealsShort (cr : Crates) : Prop where
  aeadEncrypt_isSome : ∀ k n p, p.length < 2 ^ 16 → ∃ c, cr.aeadEncrypt k n p = some c
  encode_keepAlive : cr.serverPayload.encode .keepAlive = some [2]

/-- Sealing adds a tag of 16 bytes. -/
def Crates.AddsTag (cr : Crates) : Prop :=
  ∀ k n p c, cr.aeadEncrypt k n p = some c → c.length = p.length + 16

theorem Serde.RoundTrips.decode_of_encode {α : Type} {d : Serde α} (h : d.RoundTrips) {a : α}
    {b : Bytes} (he : d.encode a = some b) : d.decode b = some a := by
  obtain ⟨b', hb', hd⟩ := h a
  rw [he] at hb'
  cases hb'
  exact hd

/-! ### Serialization -/

def serialize {α : Type} (d : Serde α) (value : α) : Except Error Bytes := okOr .encode (d.encode value)

def deserialize {α : Type} (d : Serde α) (bytes : Bytes) : Except Error α := okOr .decode (d.decode bytes)

/-- A payload below 256 bytes is sent raw behind flag `0x00`, a longer one compressed behind
    `0x01`. -/
def serializeCompressed {α : Type} (cr : Crates) (d : Serde α) (value : α) : Except Error Bytes := do
  let plain ← serialize d value
  if plain.length < 256 then return 0x00 :: plain
  else return 0x01 :: cr.compressPrependSize plain

/-- `deserialize_compressed_get_sizes`: the value, the compressed and the decompressed length. -/
def deserializeCompressedGetSizes {α : Type} (cr : Crates) (d : Serde α) (bytes : Bytes) :
    Except Error (α × ℕ × ℕ) :=
  match bytes with
  | [] => .error .emptyPayload
  | flag :: payload =>
    if flag = 0x00 then do
      let val ← deserialize d payload
      return (val, bytes.length, payload.length)
    else if flag = 0x01 then do
      let decompressed ← okOr .decompress (cr.decompressSizePrepended payload)
      let val ← deserialize d decompressed
      return (val, bytes.length, decompressed.length)
    else .error (.unknownFlag flag)

/-- ROUND TRIP: on both sides of the 256-byte threshold the flag byte leads back to the value. -/
theorem deserializeCompressed_serializeCompressed {α : Type} {cr : Crates} (hcr : cr.Lawful)
    {d : Serde α} (hd : d.RoundTrips) {value : α} {bytes : Bytes}
    (h : serializeCompressed cr d value = .ok bytes) :
    ∃ n m, deserializeCompressedGetSizes cr d bytes = .ok (value, n, m) := by
  obtain ⟨plain, hplain, h⟩ := bind_eq_ok.mp h
  have hdec : d.decode plain = some value := hd.decode_of_encode (okOr_eq_ok.mp hplain)
  split at h
  · cases h
    simp [deserializeCompressedGetSizes, deserialize, hdec, bind, Except.bind, pure, Except.pure]
  · cases h
    simp [deserializeCompressedGetSizes, deserialize, hcr.decompress_compress, hdec, bind,
      Except.bind, pure, Except.pure]

theorem serialize_ok {α : Type} {d : Serde α} (hd : d.RoundTrips) (a : α) :
    ∃ b, serialize d a = .ok b := by
  obtain ⟨b, hb, -⟩ := hd a
  exact ⟨b, by simp [serialize, hb]⟩

theorem deserialize_of_serialize {α : Type} {d : Serde α} (hd : d.RoundTrips) {a : α} {b : Bytes}
    (h : serialize d a = .ok b) : deserialize d b = .ok a := by
  simp [deserialize, hd.decode_of_encode (okOr_eq_ok.mp h)]

/-! ### Crypto -/

structure CryptoManager where
  key : Key
  salt : ℕ
  deriving DecidableEq

namespace CryptoManager

/-- The salt is the first four of the eight big-endian bytes of the session id. -/
def new (keyBytes : Key) (sessionId : ℕ) : CryptoManager :=
  { key := keyBytes, salt := sessionId / 2 ^ 32 % 2 ^ 32 }

def makeNonce (m : CryptoManager) (seqNum : ℕ) : Nonce := { salt := m.salt, seqNum }

def encrypt (cr : Crates) (m : CryptoManager) (seqNum : ℕ) (plaintext : Bytes) : Except Error Bytes :=
  okOr .encryption (cr.aeadEncrypt m.key (m.makeNonce seqNum) plaintext)

def decrypt (cr : Crates) (m : CryptoManager) (seqNum : ℕ) (ciphertext : Bytes) : Except Error Bytes :=
  okOr .decryption (cr.aeadDecrypt m.key (m.makeNonce seqNum) ciphertext)

theorem decrypt_encrypt {cr : Crates} (hcr : cr.Lawful) {m : CryptoManager} {seqNum : ℕ}
    {p c : Bytes} (h : m.encrypt cr seqNum p = .ok c) : m.decrypt cr seqNum c = .ok p := by
  simp [decrypt, hcr.aeadDecrypt_aeadEncrypt _ _ _ _ (okOr_eq_ok.mp h)]

end CryptoManager

end Rumsh.Protocol
