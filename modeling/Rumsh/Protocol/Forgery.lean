import Rumsh.Schemes.Purge
import Rumsh.Protocol.Integrity

/-! Datagrams the server never sealed, and what they do to the reassembly of those it did.

    Only a whole ciphertext is authenticated. A fragment enters the buffer as it is: it can overwrite a
    piece of an authentic frame, complete a frame too early, supersede older ones and crowd the buffer.
    `Harmless` rules these out for one datagram and one state of the buffer; along datagrams that are
    harmless, the run with the forged ones and the run without them return the same packets. -/

namespace Rumsh.Protocol
open Std Rumsh.Schemes PacketCodec

namespace FragmentBuffer

/-! ### Two buffers that agree outside the foreign numbers -/

/-- The buffers hold the same frames under every number that is not foreign, and the second holds
    none under a foreign one. -/
structure AgreeOutside (foreign : ℕ → Prop) (frames frames' : TreeMap ℕ FrameFragments) : Prop where
  same : ∀ q, ¬ foreign q → frames[q]? = frames'[q]?
  absent : ∀ q, foreign q → frames'[q]? = none

variable {foreign : ℕ → Prop} {frames frames' : TreeMap ℕ FrameFragments} {seq : ℕ}

theorem AgreeOutside.size_le (h : AgreeOutside foreign frames frames') : frames'.size ≤ frames.size := by
  rw [← card_keys, ← card_keys]
  refine Finset.card_le_card fun q hq => ?_
  rw [List.mem_toFinset, TreeMap.mem_keys] at hq ⊢
  by_cases hf : foreign q
  · rw [TreeMap.mem_iff_isSome_getElem?, h.absent q hf] at hq
    cases hq
  · rwa [TreeMap.mem_iff_isSome_getElem?, h.same q hf, ← TreeMap.mem_iff_isSome_getElem?]

/-- Without a foreign frame they are the same map. -/
theorem AgreeOutside.equiv (h : AgreeOutside foreign frames frames')
    (hnone : ∀ q ∈ frames, ¬ foreign q) : frames.Equiv frames' := by
  refine TreeMap.Equiv.of_forall_constGet?_eq fun q => ?_
  by_cases hf : foreign q
  · have hq : frames[q]? = none := TreeMap.getElem?_eq_none fun hmem => hnone q hmem hf
    exact hq.trans (h.absent q hf).symm
  · exact h.same q hf

theorem AgreeOutside.insert (h : AgreeOutside foreign frames frames') (hseq : ¬ foreign seq)
    (e : FrameFragments) : AgreeOutside foreign (frames.insert seq e) (frames'.insert seq e) := by
  refine ⟨fun q hq => ?_, fun q hq => ?_⟩
  · simp only [TreeMap.getElem?_insert, h.same q hq]
  · have : seq ≠ q := fun heq => hseq (heq ▸ hq)
    simp [TreeMap.getElem?_insert, this, h.absent q hq]

theorem AgreeOutside.insert_foreign (h : AgreeOutside foreign frames frames') (hseq : foreign seq)
    (e : FrameFragments) : AgreeOutside foreign (frames.insert seq e) frames' := by
  refine ⟨fun q hq => ?_, h.absent⟩
  have : seq ≠ q := fun heq => hq (heq ▸ hseq)
  simp [TreeMap.getElem?_insert, this, h.same q hq]

theorem AgreeOutside.superseded (h : AgreeOutside foreign frames frames') :
    AgreeOutside foreign (pruneSuperseded (frames.erase seq) seq)
      (pruneSuperseded (frames'.erase seq) seq) := by
  refine ⟨fun q hq => ?_, fun q hq => ?_⟩
  · simp only [getElem?_superseded, h.same q hq]
  · simp [getElem?_superseded, h.absent q hq]

theorem AgreeOutside.superseded_foreign (h : AgreeOutside foreign frames frames') (hseq : foreign seq)
    (hold : ∀ q < seq, q ∈ frames → foreign q) :
    AgreeOutside foreign (pruneSuperseded (frames.erase seq) seq) frames' := by
  refine ⟨fun q hq => ?_, h.absent⟩
  rw [getElem?_superseded]
  split
  · exact h.same q hq
  · rename_i hle
    have hlt : q < seq := by
      have : seq ≠ q := fun heq => hq (heq ▸ hseq)
      omega
    have hnone : frames[q]? = none :=
      TreeMap.getElem?_eq_none fun hmem => hq (hold q hlt hmem)
    rw [← h.same q hq, hnone]

theorem AgreeOutside.overflow (h : AgreeOutside foreign frames frames')
    (hroom : 32 < frames.size → ∀ q ∈ frames, ¬ foreign q) :
    AgreeOutside foreign (pruneOverflow frames) (pruneOverflow frames') := by
  by_cases hsize : 32 < frames.size
  · have heq := h.equiv (hroom hsize)
    have hsize' : 32 < frames'.size := heq.size_eq ▸ hsize
    simp only [pruneOverflow, gt_iff_lt, hsize, hsize', if_true, heq.keys_eq]
    split
    · refine ⟨fun q hq => ?_, fun q hq => ?_⟩
      · simp only [TreeMap.getElem?_erase, h.same q hq]
      · simp [TreeMap.getElem?_erase, h.absent q hq]
    · exact h
  · rw [pruneOverflow_eq (by omega), pruneOverflow_eq (h.size_le.trans (by omega))]
    exact h

end FragmentBuffer

namespace ChaChaCodec
variable {cr : Crates}

/-! ### What comes out of a run -/

/-- `open_server`, with the number and the payload it returned, if any. -/
def openPair (c : ChaChaCodec cr) (bytes : Bytes) : ChaChaCodec cr × List (ℕ × ServerPayload) :=
  let (c', result) := c.openServer bytes
  (c', match result with
    | .ok (some (packet, payload, _)) => [(packet.seqNum, payload)]
    | _ => [])

/-- The pairs `open_server` returns along the datagrams. -/
def returned (c : ChaChaCodec cr) (datagrams : List Bytes) : List (ℕ × ServerPayload) :=
  outputs openPair c datagrams

/-- Every datagram of the server's calls. -/
def sealedDatagrams (c : ChaChaCodec cr) (serverCalls : List ServerCall) : List Bytes :=
  serverCalls.flatMap fun call => (c.sealServer call.seq call.ack call.payload).toOption.getD []

/-- A call of one of the parties encrypted this ciphertext under this number. -/
def Encrypted (c : ChaChaCodec cr) (clientCalls : List ClientCall) (serverCalls : List ServerCall)
    (seq : ℕ) (ct : Bytes) : Prop :=
  ∃ plain, cr.aeadEncrypt c.crypto.key (c.crypto.makeNonce seq) plain = some ct ∧
    ((∃ call ∈ clientCalls, ClientCall.Encrypts c call (c.crypto.makeNonce seq) plain) ∨
      (∃ call ∈ serverCalls, ServerCall.Encrypts c call (c.crypto.makeNonce seq) plain))

/-- The number is that of a fragment which the server never sealed. -/
def Foreign (c : ChaChaCodec cr) (serverCalls : List ServerCall) (datagrams : List Bytes) (q : ℕ) :
    Prop :=
  ∃ d ∈ datagrams, d ∉ c.sealedDatagrams serverCalls ∧
    ∃ w, deserialize cr.serverPacket d = .ok w ∧ 1 < w.totalFrags ∧ w.seqNum = q

/-- What a packet that arrives at the buffer must not do, when numbers under `foreign` belong to forged
    fragments and `opened` are the ciphertexts the cipher opens. -/
structure Harmless (opened : ℕ → Bytes → Prop) (foreign : ℕ → Prop) (forged : Prop)
    (buf : FragmentBuffer) (w : EncryptedServerPacket) (wireLen : ℕ) : Prop where
  /-- A forged packet that travels whole does not carry a ciphertext of an honest call. -/
  whole : forged → w.totalFrags ≤ 1 → ¬ opened w.seqNum w.ciphertext
  /-- Nor does a frame that forged fragments complete. -/
  assembled : forged → 1 < w.totalFrags → buf.Completes w wireLen →
    ¬ opened w.seqNum (buf.assembled w wireLen)
  /-- Such a frame supersedes only forged ones. -/
  superseded : forged → 1 < w.totalFrags → buf.Completes w wireLen →
    ∀ q < w.seqNum, q ∈ buf.frames → foreign q
  /-- No fragment makes the buffer overflow while it holds a forged frame. -/
  room : 1 < w.totalFrags → ¬ buf.Completes w wireLen → 32 < (buf.inserted w wireLen).size →
    ∀ q ∈ buf.inserted w wireLen, ¬ foreign q

/-! ### One datagram -/

/-- Two clients of one session whose buffers agree outside the foreign numbers. -/
def Related (foreign : ℕ → Prop) (c d : ChaChaCodec cr) : Prop :=
  c.crypto = d.crypto ∧
    FragmentBuffer.AgreeOutside foreign c.fragmentBuffer.frames d.fragmentBuffer.frames

theorem openPair_error {c : ChaChaCodec cr} {bytes : Bytes} {e : Error}
    (h : deserialize cr.serverPacket bytes = .error e) : c.openPair bytes = (c, []) := by
  simp [openPair, openServer, h]

theorem openPair_ok {c : ChaChaCodec cr} {bytes : Bytes} {w : EncryptedServerPacket}
    {buf : FragmentBuffer} {r : Option (EncryptedServerPacket × Bytes × ℕ)}
    (h : deserialize cr.serverPacket bytes = .ok w)
    (hins : c.fragmentBuffer.insert w bytes.length = (buf, r)) :
    c.openPair bytes = ({ c with fragmentBuffer := buf }, match r with
      | none => []
      | some (packet, ct, wireLen) =>
        match c.openComplete packet ct wireLen with
        | .ok (packet, payload, _) => [(packet.seqNum, payload)]
        | .error _ => []) := by
  rcases r with _ | ⟨packet, ct, wireLen⟩
  · simp [openPair, openServer, h, hins]
  · cases ho : c.openComplete packet ct wireLen with
    | error e => simp [openPair, openServer, h, hins, ho, Except.map]
    | ok r => simp [openPair, openServer, h, hins, ho, Except.map]

theorem openComplete_congr {c d : ChaChaCodec cr} (h : c.crypto = d.crypto)
    (packet : EncryptedServerPacket) (ct : Bytes) (wireLen : ℕ) :
    c.openComplete packet ct wireLen = d.openComplete packet ct wireLen := by
  simp only [openComplete, h]

/-- A ciphertext the cipher does not open yields an error. -/
theorem openComplete_error {c : ChaChaCodec cr} (packet : EncryptedServerPacket) {ct : Bytes}
    (h : (cr.aeadDecrypt c.crypto.key (c.crypto.makeNonce packet.seqNum) ct).isSome = false)
    (wireLen : ℕ) : ∃ e, c.openComplete packet ct wireLen = .error e := by
  have hnone : cr.aeadDecrypt c.crypto.key (c.crypto.makeNonce packet.seqNum) ct = none := by
    simpa using h
  exact ⟨.decryption, by simp [openComplete, CryptoManager.decrypt, hnone, okOr, bind, Except.bind]⟩

/-- STEP: a datagram of the server is read alike by two related clients. -/
theorem related_keep {opened : ℕ → Bytes → Prop} {foreign : ℕ → Prop} {forged : Prop}
    {c d : ChaChaCodec cr} (h : Related foreign c d) {bytes : Bytes}
    (hown : ∀ w, deserialize cr.serverPacket bytes = .ok w → 1 < w.totalFrags → ¬ foreign w.seqNum)
    (hharm : ∀ w, deserialize cr.serverPacket bytes = .ok w →
      Harmless opened foreign forged c.fragmentBuffer w bytes.length) :
    Related foreign (c.openPair bytes).1 (d.openPair bytes).1 ∧
      (c.openPair bytes).2 = (d.openPair bytes).2 := by
  obtain ⟨hcrypto, hagree⟩ := h
  cases hw : deserialize cr.serverPacket bytes with
  | error e =>
    rw [openPair_error hw, openPair_error hw]
    exact ⟨⟨hcrypto, hagree⟩, rfl⟩
  | ok w =>
    rcases Nat.lt_or_ge 1 w.totalFrags with hfrag | hwhole
    · have hseq := hown w hw hfrag
      have hrec : c.fragmentBuffer.received w bytes.length =
          d.fragmentBuffer.received w bytes.length := by
        simp only [FragmentBuffer.received, hagree.same _ hseq]
      by_cases hc : c.fragmentBuffer.Completes w bytes.length
      · have hd : d.fragmentBuffer.Completes w bytes.length := by
          simpa only [FragmentBuffer.Completes, hrec] using hc
        rw [openPair_ok hw (FragmentBuffer.insert_completes hfrag hc),
          openPair_ok hw (FragmentBuffer.insert_completes hfrag hd)]
        refine ⟨⟨hcrypto, hagree.superseded⟩, ?_⟩
        simp only [FragmentBuffer.assembled, hrec, openComplete_congr hcrypto]
      · have hd : ¬ d.fragmentBuffer.Completes w bytes.length := by
          simpa only [FragmentBuffer.Completes, hrec] using hc
        rw [openPair_ok hw (FragmentBuffer.insert_incomplete hfrag hc),
          openPair_ok hw (FragmentBuffer.insert_incomplete hfrag hd)]
        refine ⟨⟨hcrypto, ?_⟩, rfl⟩
        have hins := hagree.insert hseq (c.fragmentBuffer.received w bytes.length)
        have hnext := hins.overflow ((hharm w hw).room hfrag hc)
        rw [hrec] at hnext
        simpa only [FragmentBuffer.inserted, hrec] using hnext
    · rw [openPair_ok hw (FragmentBuffer.insert_whole hwhole),
        openPair_ok hw (FragmentBuffer.insert_whole hwhole)]
      exact ⟨⟨hcrypto, hagree⟩, by simp only [openComplete_congr hcrypto]⟩

/-- STEP: a harmless forged datagram returns nothing and leaves the clients related. -/
theorem related_drop {opened : ℕ → Bytes → Prop} {foreign : ℕ → Prop} {forged : Prop} (hf : forged)
    {c d : ChaChaCodec cr} (h : Related foreign c d)
    (hopened : ∀ q ct, ¬ opened q ct →
      (cr.aeadDecrypt c.crypto.key (c.crypto.makeNonce q) ct).isSome = false)
    {bytes : Bytes}
    (hown : ∀ w, deserialize cr.serverPacket bytes = .ok w → 1 < w.totalFrags → foreign w.seqNum)
    (hharm : ∀ w, deserialize cr.serverPacket bytes = .ok w →
      Harmless opened foreign forged c.fragmentBuffer w bytes.length) :
    Related foreign (c.openPair bytes).1 d ∧ (c.openPair bytes).2 = [] := by
  obtain ⟨hcrypto, hagree⟩ := h
  cases hw : deserialize cr.serverPacket bytes with
  | error e =>
    rw [openPair_error hw]
    exact ⟨⟨hcrypto, hagree⟩, rfl⟩
  | ok w =>
    have hh := hharm w hw
    rcases Nat.lt_or_ge 1 w.totalFrags with hfrag | hwhole
    · have hseq := hown w hw hfrag
      by_cases hc : c.fragmentBuffer.Completes w bytes.length
      · rw [openPair_ok hw (FragmentBuffer.insert_completes hfrag hc)]
        refine ⟨⟨hcrypto, hagree.superseded_foreign hseq (hh.superseded hf hfrag hc)⟩, ?_⟩
        obtain ⟨e, he⟩ := openComplete_error (c := c) (FragmentBuffer.completedPacket w)
          (hopened _ _ (hh.assembled hf hfrag hc))
          (c.fragmentBuffer.received w bytes.length).wireLen
        simp only [he]
      · rw [openPair_ok hw (FragmentBuffer.insert_incomplete hfrag hc)]
        refine ⟨⟨hcrypto, ?_⟩, rfl⟩
        have hmem : w.seqNum ∈ c.fragmentBuffer.inserted w bytes.length := by
          simp [FragmentBuffer.inserted]
        have hsize : (c.fragmentBuffer.inserted w bytes.length).size ≤ 32 := by
          by_contra hlarge
          exact hh.room hfrag hc (by omega) _ hmem hseq
        show FragmentBuffer.AgreeOutside foreign (FragmentBuffer.pruneOverflow _) _
        rw [FragmentBuffer.pruneOverflow_eq hsize]
        exact hagree.insert_foreign hseq _
    · rw [openPair_ok hw (FragmentBuffer.insert_whole hwhole)]
      obtain ⟨e, he⟩ := openComplete_error (c := c) w
        (hopened _ _ (hh.whole hf hwhole)) bytes.length
      exact ⟨⟨hcrypto, hagree⟩, by simp only [he]⟩

/-! ### A whole run -/

theorem Ideal.not_isSome {c : ChaChaCodec cr} {clientCalls : List ClientCall}
    {serverCalls : List ServerCall} (h : c.Ideal clientCalls serverCalls) {q : ℕ} {ct : Bytes}
    (hnot : ¬ c.Encrypted clientCalls serverCalls q ct) :
    (cr.aeadDecrypt c.crypto.key (c.crypto.makeNonce q) ct).isSome = false := by
  by_contra hsome
  exact hnot (h _ ct (Bool.eq_true_of_not_eq_false hsome))

theorem crypto_openPair (c : ChaChaCodec cr) (bytes : Bytes) :
    (c.openPair bytes).1.crypto = c.crypto := (sameKeys_openServer c bytes).1

/-- NONINTERFERENCE: under an ideal cipher, when no forged fragment has the number of a sealed one and
    every datagram is harmless where it arrives, the datagrams the server never sealed can be deleted:
    the same pairs are returned, and the same frames wait under every number that is not forged. -/
theorem returned_eq_of_harmless {c : ChaChaCodec cr} {key : Key} {sid : ℕ}
    (hnew : c = ChaChaCodec.new cr key sid) {clientCalls : List ClientCall}
    {serverCalls : List ServerCall} (hideal : c.Ideal clientCalls serverCalls)
    {datagrams : List Bytes}
    (hown : ∀ d ∈ datagrams, d ∈ c.sealedDatagrams serverCalls → ∀ w,
      deserialize cr.serverPacket d = .ok w → 1 < w.totalFrags →
        ¬ c.Foreign serverCalls datagrams w.seqNum)
    (hharm : AllAlong openPair (fun s d => ∀ w, deserialize cr.serverPacket d = .ok w →
      Harmless (c.Encrypted clientCalls serverCalls) (c.Foreign serverCalls datagrams)
        (d ∉ c.sealedDatagrams serverCalls) s.fragmentBuffer w d.length) c datagrams) :
    let kept := datagrams.filter (· ∈ c.sealedDatagrams serverCalls)
    c.returned datagrams = c.returned kept ∧
      ∀ q, ¬ c.Foreign serverCalls datagrams q →
        (fed c datagrams).fragmentBuffer.frames[q]? = (fed c kept).fragmentBuffer.frames[q]? := by
  have hrun := purge_run
    (fun s t => s.crypto = c.crypto ∧ Related (c.Foreign serverCalls datagrams) s t)
    (fun s d => d ∈ datagrams ∧ ∀ w, deserialize cr.serverPacket d = .ok w →
      Harmless (c.Encrypted clientCalls serverCalls) (c.Foreign serverCalls datagrams)
        (d ∉ c.sealedDatagrams serverCalls) s.fragmentBuffer w d.length)
    (fun d => decide (d ∈ c.sealedDatagrams serverCalls)) ?_ ?_ datagrams
    (s := c) (t := c) ⟨rfl, rfl, ⟨fun _ _ => rfl, fun _ _ => by simp [hnew, new]⟩⟩
    (hharm.imp fun t d hd h => ⟨hd, h⟩)
  · exact ⟨hrun.1, hrun.2.2.2.same⟩
  · intro s t d hR hP hk
    obtain ⟨hrel, hout⟩ := related_keep hR.2 (hown d hP.1 (of_decide_eq_true hk)) hP.2
    exact ⟨⟨(crypto_openPair s d).trans hR.1, hrel⟩, hout⟩
  · intro s t d hR hP hk
    have hforged : d ∉ c.sealedDatagrams serverCalls := of_decide_eq_false hk
    have hopened : ∀ q ct, ¬ c.Encrypted clientCalls serverCalls q ct →
        (cr.aeadDecrypt s.crypto.key (s.crypto.makeNonce q) ct).isSome = false := by
      intro q ct hnot
      rw [hR.1]
      exact hideal.not_isSome hnot
    obtain ⟨hrel, hout⟩ := related_drop hforged hR.2 hopened
      (fun w hw hfrag => ⟨d, hP.1, hforged, w, hw, hfrag, rfl⟩) hP.2
    exact ⟨⟨(crypto_openPair s d).trans hR.1, hrel⟩, hout⟩

/-- What an honest call encrypted is opened. -/
theorem Encrypted.isSome (hcr : cr.Lawful) {c : ChaChaCodec cr} {clientCalls : List ClientCall}
    {serverCalls : List ServerCall} {q : ℕ} {ct : Bytes}
    (h : c.Encrypted clientCalls serverCalls q ct) :
    (cr.aeadDecrypt c.crypto.key (c.crypto.makeNonce q) ct).isSome = true := by
  obtain ⟨plain, henc, -⟩ := h
  rw [hcr.aeadDecrypt_aeadEncrypt _ _ _ _ henc]
  rfl

/-- Checks that suffice: the buffer has room, and a packet outside the list is refused by the cipher or
    completes no frame. -/
def Refused (c : ChaChaCodec cr) (honest : List Bytes) (s : ChaChaCodec cr) (d : Bytes) : Prop :=
  ∀ w ∈ (deserialize cr.serverPacket d).toOption,
    (s.fragmentBuffer.inserted w d.length).size ≤ 32 ∧
    (d ∉ honest → w.totalFrags ≤ 1 → (cr.aeadDecrypt c.crypto.key (c.crypto.makeNonce w.seqNum)
      w.ciphertext).isSome = false) ∧
    (d ∉ honest → 1 < w.totalFrags → ¬ s.fragmentBuffer.Completes w d.length)

instance (c : ChaChaCodec cr) (honest : List Bytes) (s : ChaChaCodec cr) (d : Bytes) :
    Decidable (c.Refused honest s d) :=
  inferInstanceAs (Decidable (∀ w ∈ (deserialize cr.serverPacket d).toOption, _ ∧ _ ∧ _))

theorem harmless_of_refused (hcr : cr.Lawful) {c : ChaChaCodec cr} {clientCalls : List ClientCall}
    {serverCalls : List ServerCall} {foreign : ℕ → Prop} {honest datagrams : List Bytes}
    (h : AllAlong openPair (c.Refused honest) c datagrams) :
    AllAlong openPair (fun s d => ∀ w, deserialize cr.serverPacket d = .ok w →
      Harmless (c.Encrypted clientCalls serverCalls) foreign (d ∉ honest) s.fragmentBuffer w
        d.length) c datagrams := by
  refine h.imp fun s d _ hd w hw => ?_
  obtain ⟨hroom, hwhole, hfrag⟩ := hd w (by rw [hw]; rfl)
  refine ⟨fun hf hle henc => ?_, fun hf hlt hc => ?_, fun hf hlt hc => ?_, fun _ _ hlarge => ?_⟩
  · exact absurd (henc.isSome hcr) (by simp [hwhole hf hle])
  · exact absurd hc (hfrag hf hlt)
  · exact absurd hc (hfrag hf hlt)
  · omega

/-! ### One frame of two fragments, and forged ones -/

def wideCall : List ServerCall := [⟨5, 3, wideFrame⟩]

def widePlain : Bytes :=
  (serializeCompressed Bincode.crates Bincode.crates.serverPayload wideFrame).toOption.getD []

def wideTable : List (Nonce × Bytes) := [(⟨9, 5⟩, widePlain)]

/-- A session whose cipher opens nothing but that frame. -/
def wideCodec : ChaChaCodec (tableCrates wideTable) :=
  ChaChaCodec.new (tableCrates wideTable) (Vector.replicate 32 0) (9 * 2 ^ 32)

theorem wideCodec_ideal : wideCodec.Ideal [] wideCall := by
  intro n ct h
  obtain ⟨plain, hmem, henc⟩ := tableCrates_decrypt (by decide +kernel) h
  refine ⟨plain, henc, .inr ⟨_, List.mem_cons_self .., ?_⟩⟩
  cases List.mem_singleton.mp hmem
  exact ⟨by decide +kernel, by decide +kernel⟩

/-- A datagram with an empty ciphertext, in two fragments or whole. -/
def junk (seq fragIdx totalFrags : ℕ) : Bytes := Bincode.serverPacket.put ⟨seq, 0, fragIdx, totalFrags, []⟩

/-- The frame's two datagrams. -/
def wideDatagrams : List Bytes := wideCodec.sealedDatagrams wideCall

/-- The frame's ciphertext whole, under another ack. -/
def wideCopy : Bytes := Bincode.serverPacket.put ⟨5, 7, 0, 1, sealedBytes (⟨9, 5⟩, widePlain)⟩

/-- The second fragment, then other datagrams, then the first fragment. -/
def around (forged : List Bytes) : List Bytes :=
  wideDatagrams.drop 1 ++ forged ++ wideDatagrams.take 1

/-- The server sealed a frame in two datagrams. A forged first fragment, a forged frame with a higher
    number or 32 fragments of such frames between the two lose it; and its ciphertext under another
    header is returned although the server sealed no such datagram. -/
theorem forged_fragments_interfere :
    wideCodec.Ideal [] wideCall ∧ wideDatagrams.length = 2 ∧
    (∀ forged ∈ [[junk 5 0 2], [junk 6 0 2, junk 6 1 2], (List.range 32).map fun i => junk (6 + i) 0 2],
      wideCodec.returned (around forged) = [] ∧
      wideCodec.returned ((around forged).filter (· ∈ wideCodec.sealedDatagrams wideCall)) =
        [(5, wideFrame)]) ∧
    wideCodec.returned [wideCopy] = [(5, wideFrame)] ∧
    wideCodec.returned ([wideCopy].filter (· ∈ wideCodec.sealedDatagrams wideCall)) = [] := by
  refine ⟨wideCodec_ideal, by decide +kernel, by decide +kernel, by decide +kernel, by decide +kernel⟩

/-- A forged datagram that travels whole and a forged fragment of a later frame, between the two. -/
@[irreducible] def harmlessRun : List Bytes := around [junk 5 0 1, junk 9 0 2]

theorem harmlessRun_refused :
    AllAlong openPair (wideCodec.Refused (wideCodec.sealedDatagrams wideCall)) wideCodec harmlessRun := by
  decide +kernel

/-- The sealed fragments have number 5, the forged one has number 9. -/
theorem harmlessRun_numbers : ∀ d ∈ harmlessRun,
    ∀ w ∈ (deserialize (tableCrates wideTable).serverPacket d).toOption, 1 < w.totalFrags →
      w.seqNum = if d ∈ wideCodec.sealedDatagrams wideCall then 5 else 9 := by
  decide +kernel

theorem returned_eq_of_harmless_wideFrame :
    wideCodec.returned harmlessRun = [(5, wideFrame)] ∧
    wideCodec.returned harmlessRun =
      wideCodec.returned (harmlessRun.filter (· ∈ wideCodec.sealedDatagrams wideCall)) := by
  refine ⟨by decide +kernel, (returned_eq_of_harmless (c := wideCodec) rfl wideCodec_ideal ?_
    (harmless_of_refused (tableCrates_lawful wideTable) harmlessRun_refused)).1⟩
  rintro d hd hsealed w hw hfrag ⟨d', hd', hforged, w', hw', hfrag', heq⟩
  have h5 := harmlessRun_numbers d hd w (by rw [hw]; rfl) hfrag
  have h9 := harmlessRun_numbers d' hd' w' (by rw [hw']; rfl) hfrag'
  rw [if_pos hsealed] at h5
  rw [if_neg hforged] at h9
  omega

end ChaChaCodec

end Rumsh.Protocol
