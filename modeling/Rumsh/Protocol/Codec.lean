import Mathlib.Data.List.Basic
import Std.Data.TreeMap
import Rumsh.Schemes.Chunks
import Rumsh.Protocol.Payload

/-! The packet codec of `src/protocol/codec.rs`: the `PacketCodec` trait, the reassembly buffer, and
    the two implementations.

    Sealing is stateless; `openServer` threads the codec through, because the fragment buffer behind
    its mutex remembers the pieces of frames still in flight. `BTreeMap` and `HashMap` are both
    `TreeMap`: the only iteration over a `HashMap` here sets bits of a mask, in any order. -/

namespace Rumsh.Protocol
open Std Rumsh.Schemes

structure CodecStats where
  wireLen : ℕ
  compLen : ℕ
  decompLen : ℕ
  deriving DecidableEq, Repr

/-- The `PacketCodec` trait. -/
class PacketCodec (C : Type) where
  sealClient : C → (sessionId seq ack : ℕ) → ClientPayload → Except Error Bytes
  openClient : C → Bytes → Except Error (EncryptedClientPacket × ClientPayload × CodecStats)
  sealServer : C → (seq ack : ℕ) → ServerPayload → Except Error (List Bytes)
  openServer : C → Bytes →
    C × Except Error (Option (EncryptedServerPacket × ServerPayload × CodecStats))
  getIncompleteFrames : C → List (ℕ × List ℕ)

namespace PacketCodec
variable {C : Type} [PacketCodec C]

/-- The codec after it was handed datagrams of the server, one by one. -/
def fed (c : C) (datagrams : List Bytes) : C :=
  datagrams.foldl (fun c bytes => (openServer c bytes).1) c

/-- A datagram the server sealed, when it seals payload `(fam s).2` with ack `(fam s).1` under each
    number `s`. -/
def Sealed (server : C) (fam : ℕ → ℕ × ServerPayload) (bytes : Bytes) : Prop :=
  ∃ s datagrams, sealServer server s (fam s).1 (fam s).2 = .ok datagrams ∧ bytes ∈ datagrams

/-- The codec round-trips between a server and a client of session `sid`: the server reads what the
    client sealed, and whatever comes out of the client's side for a family of sealed payloads,
    delivered in any way, is the member of the family under its number. -/
structure RoundTrips (sid : ℕ) (server client : C) : Prop where
  openClient : ∀ datagrams session seq ack payload bytes, session = 0 ∨ session = sid →
    sealClient (fed client datagrams) session seq ack payload = .ok bytes →
    ∃ ct stats, PacketCodec.openClient server bytes = .ok (⟨session, seq, ack, ct⟩, payload, stats)
  openServer : ∀ fam datagrams bytes packet payload stats,
    (∀ x ∈ bytes :: datagrams, Sealed server fam x) →
    (PacketCodec.openServer (fed client datagrams) bytes).2 = .ok (some (packet, payload, stats)) →
    fam packet.seqNum = (packet.ackSeqNum, payload)

end PacketCodec

/-! ### Fragments -/

/-- The packets one ciphertext is sent in: one below the threshold, else one per 1024-byte chunk.
    Index and count are `u16`. -/
def fragmentPackets (seq ack : ℕ) (ciphertext : Bytes) : List EncryptedServerPacket :=
  if ciphertext.length ≤ FRAGMENT_PAYLOAD_SIZE then
    [{ seqNum := seq, ackSeqNum := ack, fragIdx := 0, totalFrags := 1, ciphertext }]
  else
    let pieces := chunks FRAGMENT_PAYLOAD_SIZE ciphertext
    let totalFrags := pieces.length % 2 ^ 16
    pieces.zipIdx.map fun (piece, idx) =>
      { seqNum := seq, ackSeqNum := ack, fragIdx := idx % 2 ^ 16, totalFrags, ciphertext := piece }

/-- A frame being reassembled: `(total_frags, wire_len_acc, fragments_by_index)`. -/
structure FrameFragments where
  totalFrags : ℕ
  wireLen : ℕ
  frags : TreeMap ℕ Bytes

structure FragmentBuffer where
  frames : TreeMap ℕ FrameFragments := ∅

namespace FragmentBuffer

/-- The entry of a frame after one more fragment: `or_insert_with`, then the two updates. -/
def received (buf : FragmentBuffer) (packet : EncryptedServerPacket) (wireLen : ℕ) : FrameFragments :=
  let entry := (buf.frames[packet.seqNum]?).getD
    { totalFrags := packet.totalFrags, wireLen := 0, frags := ∅ }
  { entry with
    wireLen := entry.wireLen + wireLen
    frags := entry.frags.insert packet.fragIdx packet.ciphertext }

/-- `while let Some(oldest) … if oldest < seq { remove }`: the incomplete frames older than a
    completed one are dropped. -/
def pruneSuperseded (frames : TreeMap ℕ FrameFragments) (seq : ℕ) : TreeMap ℕ FrameFragments :=
  frames.filter fun old _ => seq ≤ old

/-- Above 32 incomplete frames the oldest is dropped. -/
def pruneOverflow (frames : TreeMap ℕ FrameFragments) : TreeMap ℕ FrameFragments :=
  if frames.size > 32 then
    match frames.keys.head? with
    | some minSeq => frames.erase minSeq
    | none => frames
  else frames

/-- `FragmentBuffer::insert`: the packet that is complete now, its full ciphertext and wire length. -/
def insert (buf : FragmentBuffer) (packet : EncryptedServerPacket) (wireLen : ℕ) :
    FragmentBuffer × Option (EncryptedServerPacket × Bytes × ℕ) :=
  if packet.totalFrags ≤ 1 then (buf, some (packet, packet.ciphertext, wireLen))
  else
    let entry := buf.received packet wireLen
    if entry.frags.size = entry.totalFrags then
      let completed : EncryptedServerPacket :=
        { seqNum := packet.seqNum, ackSeqNum := packet.ackSeqNum, fragIdx := 0, totalFrags := 1,
          ciphertext := [] }
      ({ frames := pruneSuperseded (buf.frames.erase packet.seqNum) packet.seqNum },
        some (completed, assemble entry.totalFrags entry.frags, entry.wireLen))
    else ({ frames := pruneOverflow (buf.frames.insert packet.seqNum entry) }, none)

/-- The bitmask of the fragments held: bit `idx % 64` of word `idx / 64`. -/
def receivedMask (entry : FrameFragments) : List ℕ :=
  entry.frags.keys.foldl (fun mask idx => mask.modify (idx / 64) (· ||| 1 <<< (idx % 64)))
    (List.replicate ((entry.totalFrags + 63) / 64) 0)

def getIncompleteFrames (buf : FragmentBuffer) : List (ℕ × List ℕ) :=
  buf.frames.toList.filterMap fun (seq, entry) =>
    if entry.totalFrags = 0 ∨ entry.frags.size ≥ entry.totalFrags then none
    else some (seq, receivedMask entry)

end FragmentBuffer

/-! ### ChaChaCodec -/

structure ChaChaCodec (cr : Crates) where
  crypto : CryptoManager
  handshakeCrypto : CryptoManager
  sessionId : ℕ
  fragmentBuffer : FragmentBuffer

namespace ChaChaCodec
variable {cr : Crates}

def new (cr : Crates) (key : Key) (sessionId : ℕ) : ChaChaCodec cr :=
  { crypto := CryptoManager.new key sessionId, handshakeCrypto := CryptoManager.new key 0
    sessionId, fragmentBuffer := {} }

def sealClient (c : ChaChaCodec cr) (sessionId seq ack : ℕ) (payload : ClientPayload) :
    Except Error Bytes := do
  let payloadBytes ← serialize cr.clientPayload payload
  let cryptoToUse := if sessionId = 0 then c.handshakeCrypto else c.crypto
  let ciphertext ← cryptoToUse.encrypt cr seq payloadBytes
  serialize cr.clientPacket { sessionId, seqNum := seq, ackSeqNum := ack, ciphertext }

/-- The crypto a client packet of this session id is opened with. -/
def cryptoFor (c : ChaChaCodec cr) (sessionId : ℕ) : Except Error CryptoManager :=
  if sessionId = 0 then .ok c.handshakeCrypto
  else if sessionId = c.sessionId then .ok c.crypto
  else .error (.sessionIdMismatch c.sessionId sessionId)

def openClient (c : ChaChaCodec cr) (bytes : Bytes) :
    Except Error (EncryptedClientPacket × ClientPayload × CodecStats) := do
  let wirePacket ← deserialize cr.clientPacket bytes
  let cryptoToUse ← c.cryptoFor wirePacket.sessionId
  let payloadBytes ← cryptoToUse.decrypt cr wirePacket.seqNum wirePacket.ciphertext
  let payload ← deserialize cr.clientPayload payloadBytes
  return (wirePacket, payload,
    { wireLen := bytes.length, compLen := payloadBytes.length, decompLen := payloadBytes.length })

def sealServer (c : ChaChaCodec cr) (seq ack : ℕ) (payload : ServerPayload) :
    Except Error (List Bytes) := do
  let payloadBytes ← serializeCompressed cr cr.serverPayload payload
  let ciphertext ← c.crypto.encrypt cr seq payloadBytes
  (fragmentPackets seq ack ciphertext).mapM (serialize cr.serverPacket)

/-- The part of `open_server` after reassembly: decrypt, decompress, deserialize. -/
def openComplete (c : ChaChaCodec cr) (packet : EncryptedServerPacket) (fullCiphertext : Bytes)
    (wireLen : ℕ) : Except Error (EncryptedServerPacket × ServerPayload × CodecStats) := do
  let payloadBytes ← c.crypto.decrypt cr packet.seqNum fullCiphertext
  let (payload, compLen, decompLen) ←
    deserializeCompressedGetSizes cr cr.serverPayload payloadBytes
  return (packet, payload, { wireLen, compLen, decompLen })

def openServer (c : ChaChaCodec cr) (bytes : Bytes) :
    ChaChaCodec cr × Except Error (Option (EncryptedServerPacket × ServerPayload × CodecStats)) :=
  match deserialize cr.serverPacket bytes with
  | .error e => (c, .error e)
  | .ok wirePacket =>
    match c.fragmentBuffer.insert wirePacket bytes.length with
    | (buf, none) => ({ c with fragmentBuffer := buf }, .ok none)
    | (buf, some (packet, fullCiphertext, wireLen)) =>
      ({ c with fragmentBuffer := buf },
        (c.openComplete packet fullCiphertext wireLen).map some)

instance : PacketCodec (ChaChaCodec cr) where
  sealClient := sealClient
  openClient := openClient
  sealServer := sealServer
  openServer := openServer
  getIncompleteFrames c := c.fragmentBuffer.getIncompleteFrames

end ChaChaCodec

/-! ### NullCodec -/

/-- The test codec: the same framing without encryption or compression. -/
structure NullCodec (cr : Crates) where
  sessionId : ℕ
  fragmentBuffer : FragmentBuffer := {}

namespace NullCodec
variable {cr : Crates}

def sealClient (_ : NullCodec cr) (sessionId seq ack : ℕ) (payload : ClientPayload) :
    Except Error Bytes := do
  let payloadBytes ← serialize cr.clientPayload payload
  serialize cr.clientPacket { sessionId, seqNum := seq, ackSeqNum := ack, ciphertext := payloadBytes }

def openClient (c : NullCodec cr) (bytes : Bytes) :
    Except Error (EncryptedClientPacket × ClientPayload × CodecStats) := do
  let wirePacket ← deserialize cr.clientPacket bytes
  if wirePacket.sessionId ≠ 0 ∧ wirePacket.sessionId ≠ c.sessionId then
    throw .sessionIdMismatchNull
  let payload ← deserialize cr.clientPayload wirePacket.ciphertext
  return (wirePacket, payload,
    { wireLen := bytes.length, compLen := wirePacket.ciphertext.length
      decompLen := wirePacket.ciphertext.length })

def sealServer (_ : NullCodec cr) (seq ack : ℕ) (payload : ServerPayload) :
    Except Error (List Bytes) := do
  let payloadBytes ← serialize cr.serverPayload payload
  (fragmentPackets seq ack payloadBytes).mapM (serialize cr.serverPacket)

def openServer (c : NullCodec cr) (bytes : Bytes) :
    NullCodec cr × Except Error (Option (EncryptedServerPacket × ServerPayload × CodecStats)) :=
  match deserialize cr.serverPacket bytes with
  | .error e => (c, .error e)
  | .ok wirePacket =>
    match c.fragmentBuffer.insert wirePacket bytes.length with
    | (buf, none) => ({ c with fragmentBuffer := buf }, .ok none)
    | (buf, some (packet, full, wireLen)) =>
      ({ c with fragmentBuffer := buf },
        (deserialize cr.serverPayload full).map fun payload =>
          some (packet, payload, { wireLen, compLen := full.length, decompLen := full.length }))

instance : PacketCodec (NullCodec cr) where
  sealClient := sealClient
  openClient := openClient
  sealServer := sealServer
  openServer := openServer
  getIncompleteFrames c := c.fragmentBuffer.getIncompleteFrames

end NullCodec

end Rumsh.Protocol
