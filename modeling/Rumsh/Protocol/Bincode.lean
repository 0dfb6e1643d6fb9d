import Rumsh.Schemes.Format
import Rumsh.Protocol.Payload

/-! A concrete `Crates`: the byte formats the derived `Serialize` instances have under
    `bincode::config::standard()`, a store-only compressor, and a cipher that does nothing but bind the
    ciphertext to its nonce.

    Its formats are the wire formats of the program. The compressor and the cipher are the simplest
    functions with the properties the program relies on, so that `Crates.Lawful` is inhabited and a run
    of the program can be evaluated. -/

namespace Rumsh.Protocol.Bincode
open Rumsh.Schemes Format

/-! ### Formats -/

def bytes : Format Bytes := list nat byte

def rgbColorUpdate : Format RgbColorUpdate :=
  (byte.seq (byte.seq byte)).imap (fun (r, g, b) => ⟨r, g, b⟩) (fun c => (c.r, c.g, c.b))
    (fun _ => rfl)

def compactGrapheme : Format CompactGrapheme :=
  ((vector byte 15).seq byte).imap (fun (bytes, len) => ⟨bytes, len⟩) (fun g => (g.bytes, g.len))
    (fun _ => rfl)

def localCellData : Format LocalCellData :=
  (compactGrapheme.seq (rgbColorUpdate.option.seq (rgbColorUpdate.option.seq byte))).imap
    (fun (graphemes, fg, bg, styleFlags) => ⟨graphemes, fg, bg, styleFlags⟩)
    (fun c => (c.graphemes, c.fg, c.bg, c.styleFlags)) (fun _ => rfl)

def cellUpdate : Format CellUpdate :=
  (nat.seq localCellData).imap (fun (x, cell) => ⟨x, cell⟩) (fun u => (u.x, u.cell)) (fun _ => rfl)

def rowUpdate : Format RowUpdate :=
  (nat.seq ((list nat cellUpdate).seq bool)).imap
    (fun (y, cells, isWrapped) => ⟨y, cells, isWrapped⟩)
    (fun u => (u.y, u.cells, u.isWrapped)) (fun _ => rfl)

def frameUpdate : Format FrameUpdate :=
  (nat.seq (nat.seq (nat.seq (nat.seq (nat.seq (bool.seq ((list nat rowUpdate).seq bool))))))).imap
    (fun (refSeq, cols, rows, cursorX, cursorY, cursorVisible, rowUpdates, isEchoEnabled) =>
      ⟨refSeq, cols, rows, cursorX, cursorY, cursorVisible, rowUpdates, isEchoEnabled⟩)
    (fun u => (u.refSeq, u.cols, u.rows, u.cursorX, u.cursorY, u.cursorVisible, u.rowUpdates,
      u.isEchoEnabled))
    (fun _ => rfl)

/-- An enum is the index of its variant, then the variant's fields. -/
def clientPayload : Format ClientPayload where
  put
    | .handshake version cols rows => 0 :: (nat.seq (nat.seq nat)).put (version, cols, rows)
    | .keystrokes keys => 1 :: bytes.put keys
    | .resize cols rows => 2 :: (nat.seq nat).put (cols, rows)
    | .keepAlive => [3]
    | .ack => [4]
    | .fragmentNack frameSeq mask => 5 :: (nat.seq (list nat nat)).put (frameSeq, mask)
  get
    | 0 :: l => ((nat.seq (nat.seq nat)).get l).map fun ((version, cols, rows), l) =>
        (.handshake version cols rows, l)
    | 1 :: l => (bytes.get l).map fun (keys, l) => (.keystrokes keys, l)
    | 2 :: l => ((nat.seq nat).get l).map fun ((cols, rows), l) => (.resize cols rows, l)
    | 3 :: l => some (.keepAlive, l)
    | 4 :: l => some (.ack, l)
    | 5 :: l => ((nat.seq (list nat nat)).get l).map fun ((frameSeq, mask), l) =>
        (.fragmentNack frameSeq mask, l)
    | _ => none
  get_put p rest := by cases p <;> simp

def serverPayload : Format ServerPayload where
  put
    | .handshakeAck sessionId => 0 :: nat.put sessionId
    | .frame update => 1 :: frameUpdate.put update
    | .keepAlive => [2]
    | .shutdown => [3]
  get
    | 0 :: l => (nat.get l).map fun (sessionId, l) => (.handshakeAck sessionId, l)
    | 1 :: l => (frameUpdate.get l).map fun (update, l) => (.frame update, l)
    | 2 :: l => some (.keepAlive, l)
    | 3 :: l => some (.shutdown, l)
    | _ => none
  get_put p rest := by cases p <;> simp

def clientPacket : Format EncryptedClientPacket :=
  (nat.seq (nat.seq (nat.seq bytes))).imap
    (fun (sessionId, seqNum, ackSeqNum, ciphertext) => ⟨sessionId, seqNum, ackSeqNum, ciphertext⟩)
    (fun p => (p.sessionId, p.seqNum, p.ackSeqNum, p.ciphertext)) (fun _ => rfl)

def serverPacket : Format EncryptedServerPacket :=
  (nat.seq (nat.seq (nat.seq (nat.seq bytes)))).imap
    (fun (seqNum, ackSeqNum, fragIdx, totalFrags, ciphertext) =>
      ⟨seqNum, ackSeqNum, fragIdx, totalFrags, ciphertext⟩)
    (fun p => (p.seqNum, p.ackSeqNum, p.fragIdx, p.totalFrags, p.ciphertext)) (fun _ => rfl)

/-! ### Crates -/

/-- `encode_to_vec`, and `borrow_decode_from_slice` with what is left over thrown away. -/
def serde {α : Type} (f : Format α) : Serde α :=
  { encode := fun a => some (f.put a), decode := fun b => (f.get b).map Prod.fst }

theorem serde_roundTrips {α : Type} (f : Format α) : (serde f).RoundTrips := by
  intro a
  have h := f.get_put a []
  rw [List.append_nil] at h
  exact ⟨f.put a, rfl, by simp [serde, h]⟩

/-- The twelve bytes of a nonce, padded to the sixteen of an authentication tag. -/
def tag (n : Nonce) : Bytes := le 4 n.salt ++ le 8 n.seqNum ++ [0, 0, 0, 0]

/-- The nonce's tag before the plaintext, up to a maximal length. -/
def aeadEncrypt (_ : Key) (n : Nonce) (p : Bytes) : Option Bytes :=
  if p.length < 2 ^ 25 then some (tag n ++ p) else none

/-- Refuse a ciphertext made under another nonce. -/
def aeadDecrypt (_ : Key) (n : Nonce) (c : Bytes) : Option Bytes :=
  if c.take 16 = tag n then some (c.drop 16) else none

def crates : Crates :=
  { clientPayload := serde clientPayload
    serverPayload := serde serverPayload
    clientPacket := serde clientPacket
    serverPacket := serde serverPacket
    compressPrependSize := fun p => le 4 p.length ++ p
    decompressSizePrepended := fun b => some (b.drop 4)
    aeadEncrypt, aeadDecrypt }

@[simp] theorem length_tag (n : Nonce) : (tag n).length = 16 := by simp [tag]

theorem aeadEncrypt_eq_some {k : Key} {n : Nonce} {p c : Bytes} (h : aeadEncrypt k n p = some c) :
    c = tag n ++ p ∧ p.length < 2 ^ 25 := by
  unfold aeadEncrypt at h
  split at h
  · cases h
    exact ⟨rfl, by assumption⟩
  · cases h

theorem aeadDecrypt_aeadEncrypt {k : Key} {n : Nonce} {p c : Bytes} (h : aeadEncrypt k n p = some c) :
    aeadDecrypt k n c = some p := by
  obtain ⟨rfl, -⟩ := aeadEncrypt_eq_some h
  have htake : (tag n ++ p).take 16 = tag n := List.take_left' (length_tag n)
  have hdrop : (tag n ++ p).drop 16 = p := List.drop_left' (length_tag n)
  simp [aeadDecrypt, htake, hdrop]

theorem crates_lawful : crates.Lawful where
  clientPayload := serde_roundTrips _
  serverPayload := serde_roundTrips _
  clientPacket := serde_roundTrips _
  serverPacket := serde_roundTrips _
  decompress_compress p := by
    show some ((le 4 p.length ++ p).drop 4) = some p
    rw [List.drop_left' (length_le 4 p.length)]
  aeadDecrypt_aeadEncrypt k _ _ _ h := aeadDecrypt_aeadEncrypt (k := k) h

theorem crates_sealsShort : crates.SealsShort where
  aeadEncrypt_isSome k n p h := by
    refine ⟨tag n ++ p, ?_⟩
    show (if p.length < 2 ^ 25 then some (tag n ++ p) else none) = _
    rw [if_pos (by omega)]
  encode_keepAlive := rfl

theorem crates_addsTag : crates.AddsTag := by
  intro k n p c h
  obtain ⟨rfl, -⟩ := aeadEncrypt_eq_some (k := k) h
  rw [List.length_append, length_tag, Nat.add_comm]

end Rumsh.Protocol.Bincode
