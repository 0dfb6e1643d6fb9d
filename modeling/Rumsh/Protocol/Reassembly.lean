import Mathlib.Data.List.Forall2
import Rumsh.Protocol.Codec

/-! What comes out of `openServer`: the reassembly buffer only ever holds true pieces of sealed
    ciphertexts, so a completed packet is the one that was sealed under its number.

    The sealed ciphertexts are a ledger `L seq ct`. `Holds L` is the buffer's invariant and
    `insert_holds` its step lemma. The second half follows one ciphertext: `Newest` says which of its
    fragments the buffer holds while it has the highest number of all, and `Collecting` that the buffer
    holds nothing else. -/

namespace Rumsh.Protocol
open Std Rumsh.Schemes

/-- A traversal that succeeds pairs every element with its image. -/
theorem forall₂_of_mapM {ε α β : Type} {f : α → Except ε β} : ∀ {l : List α} {bs : List β},
    l.mapM f = .ok bs → List.Forall₂ (fun a b => f a = .ok b) l bs
  | [], bs, h => by
      have : ([] : List β) = bs := by simpa [pure, Except.pure] using h
      exact this ▸ .nil
  | a :: l, bs, h => by
      rw [List.mapM_cons] at h
      obtain ⟨b, hb, h⟩ := bind_eq_ok.mp h
      obtain ⟨bs', hbs', h⟩ := bind_eq_ok.mp h
      obtain rfl : b :: bs' = bs := by simpa [pure, Except.pure] using h
      exact .cons hb (forall₂_of_mapM hbs')

theorem exists_of_mem_right {α β : Type} {R : α → β → Prop} {l : List α} {bs : List β}
    (h : List.Forall₂ R l bs) {b : β} (hb : b ∈ bs) : ∃ a ∈ l, R a b := by
  induction h with
  | nil => simp at hb
  | cons hr _ ih =>
    rcases List.mem_cons.mp hb with rfl | hb
    · exact ⟨_, List.mem_cons_self .., hr⟩
    · obtain ⟨a, ha, hr'⟩ := ih hb
      exact ⟨a, List.mem_cons_of_mem _ ha, hr'⟩

theorem exists_of_mem_left {α β : Type} {R : α → β → Prop} {l : List α} {bs : List β}
    (h : List.Forall₂ R l bs) {a : α} (ha : a ∈ l) : ∃ b ∈ bs, R a b := by
  obtain ⟨b, hb, hr⟩ := exists_of_mem_right h.flip ha
  exact ⟨b, hb, hr⟩

/-! ### Fragments of one ciphertext -/

theorem size_pos : 0 < FRAGMENT_PAYLOAD_SIZE := by decide

/-- How many packets a ciphertext needs. -/
def fragmentCount (ct : Bytes) : ℕ := chunkCount FRAGMENT_PAYLOAD_SIZE ct

theorem length_fragmentPackets {seq ack : ℕ} {ct : Bytes} (h : FRAGMENT_PAYLOAD_SIZE < ct.length) :
    (fragmentPackets seq ack ct).length = fragmentCount ct := by
  simp [fragmentPackets, Nat.not_le.mpr h, fragmentCount]

/-- The `i`-th fragment of a long ciphertext. -/
def fragment (seq ack : ℕ) (ct : Bytes) (i : ℕ) : EncryptedServerPacket :=
  { seqNum := seq, ackSeqNum := ack, fragIdx := i, totalFrags := fragmentCount ct
    ciphertext := chunk FRAGMENT_PAYLOAD_SIZE ct i }

theorem not_totalFrags_le_one (seq ack i : ℕ) {ct : Bytes} (h : FRAGMENT_PAYLOAD_SIZE < ct.length) :
    ¬ (fragment seq ack ct i).totalFrags ≤ 1 := by
  have := two_le_chunkCount size_pos h
  simp only [fragment, fragmentCount]
  omega

/-- A short ciphertext travels whole; below 65536 pieces the `u16` counters of a long one are exact. -/
theorem mem_fragmentPackets {seq ack : ℕ} {ct : Bytes} (hmax : fragmentCount ct ≤ 65535)
    {pkt : EncryptedServerPacket} :
    pkt ∈ fragmentPackets seq ack ct ↔
      ct.length ≤ FRAGMENT_PAYLOAD_SIZE ∧ pkt = ⟨seq, ack, 0, 1, ct⟩ ∨
      FRAGMENT_PAYLOAD_SIZE < ct.length ∧ ∃ i < fragmentCount ct, pkt = fragment seq ack ct i := by
  by_cases hle : ct.length ≤ FRAGMENT_PAYLOAD_SIZE
  · simp [fragmentPackets, hle]
  · simp only [fragmentPackets, hle, if_false, false_and, false_or, Nat.not_le.mp hle, true_and,
      List.mem_map, Prod.exists, List.mem_zipIdx_iff_getElem?, length_chunks]
    have hcount : chunkCount FRAGMENT_PAYLOAD_SIZE ct % 2 ^ 16 = fragmentCount ct :=
      Nat.mod_eq_of_lt (by unfold fragmentCount at hmax; omega)
    constructor
    · rintro ⟨piece, i, hi, rfl⟩
      have hlt : i < fragmentCount ct := by
        have := (List.getElem?_eq_some_iff.mp hi).1
        simpa [fragmentCount] using this
      rw [getElem?_chunks hlt] at hi
      cases hi
      exact ⟨i, hlt, by simp only [fragment, hcount]; rw [Nat.mod_eq_of_lt (by omega)]⟩
    · rintro ⟨i, hi, rfl⟩
      refine ⟨_, i, getElem?_chunks hi, ?_⟩
      simp only [fragment, hcount]
      rw [Nat.mod_eq_of_lt (by omega)]

namespace FragmentBuffer

/-- The frames after one more fragment, before anything is pruned. -/
def inserted (buf : FragmentBuffer) (packet : EncryptedServerPacket) (wireLen : ℕ) :
    TreeMap ℕ FrameFragments :=
  buf.frames.insert packet.seqNum (buf.received packet wireLen)

/-- The fragment is the last one its frame waits for. -/
def Completes (buf : FragmentBuffer) (packet : EncryptedServerPacket) (wireLen : ℕ) : Prop :=
  (buf.received packet wireLen).frags.size = (buf.received packet wireLen).totalFrags

instance (buf : FragmentBuffer) (packet : EncryptedServerPacket) (wireLen : ℕ) :
    Decidable (buf.Completes packet wireLen) := inferInstanceAs (Decidable (_ = _))

/-- The ciphertext a frame is opened with once it is complete. -/
def assembled (buf : FragmentBuffer) (packet : EncryptedServerPacket) (wireLen : ℕ) : Bytes :=
  assemble (buf.received packet wireLen).totalFrags (buf.received packet wireLen).frags

/-- The packet that stands for a completed frame. -/
def completedPacket (packet : EncryptedServerPacket) : EncryptedServerPacket :=
  { seqNum := packet.seqNum, ackSeqNum := packet.ackSeqNum, fragIdx := 0, totalFrags := 1
    ciphertext := [] }

/-! ### The three things `insert` does -/

theorem insert_whole {buf : FragmentBuffer} {packet : EncryptedServerPacket} {wireLen : ℕ}
    (h : packet.totalFrags ≤ 1) :
    buf.insert packet wireLen = (buf, some (packet, packet.ciphertext, wireLen)) := by
  simp [insert, h]

theorem insert_completes {buf : FragmentBuffer} {packet : EncryptedServerPacket} {wireLen : ℕ}
    (h : 1 < packet.totalFrags) (hc : buf.Completes packet wireLen) :
    buf.insert packet wireLen =
      (⟨pruneSuperseded (buf.frames.erase packet.seqNum) packet.seqNum⟩,
        some (completedPacket packet, buf.assembled packet wireLen,
          (buf.received packet wireLen).wireLen)) := by
  have hc' : (buf.received packet wireLen).frags.size = (buf.received packet wireLen).totalFrags := hc
  simp [insert, Nat.not_le.mpr h, hc', completedPacket, assembled]

theorem insert_incomplete {buf : FragmentBuffer} {packet : EncryptedServerPacket} {wireLen : ℕ}
    (h : 1 < packet.totalFrags) (hc : ¬ buf.Completes packet wireLen) :
    buf.insert packet wireLen = (⟨pruneOverflow (buf.inserted packet wireLen)⟩, none) := by
  have hc' : ¬ (buf.received packet wireLen).frags.size =
    (buf.received packet wireLen).totalFrags := hc
  simp [insert, Nat.not_le.mpr h, hc', inserted]

theorem getElem?_superseded {frames : TreeMap ℕ FrameFragments} {seq : ℕ} (q : ℕ) :
    (pruneSuperseded (frames.erase seq) seq)[q]? = if seq < q then frames[q]? else none := by
  rw [pruneSuperseded, TreeMap.getElem?_filter', TreeMap.getElem?_erase]
  by_cases hlt : seq < q
  · have hne : seq ≠ q := by omega
    cases hq : frames[q]? with
    | none => simp [hne]
    | some e => simp [hne, hlt, Nat.le_of_lt hlt]
  · by_cases heq : seq = q
    · simp [heq]
    · have hle : ¬ seq ≤ q := by omega
      cases hq : frames[q]? with
      | none => simp [heq]
      | some e => simp [heq, hlt, hle]

/-! ### The buffer's invariant -/

/-- An entry holds true pieces of a long ciphertext, and knows how many there are. -/
structure Pieces (ct : Bytes) (entry : FrameFragments) : Prop where
  long : FRAGMENT_PAYLOAD_SIZE < ct.length
  total : entry.totalFrags = fragmentCount ct
  piece : ∀ i b, entry.frags[i]? = some b → i < fragmentCount ct ∧ b = chunk FRAGMENT_PAYLOAD_SIZE ct i

theorem Pieces.lt_of_mem {ct : Bytes} {entry : FrameFragments} (h : Pieces ct entry) :
    ∀ i ∈ entry.frags, i < fragmentCount ct := by
  intro i hi
  obtain ⟨b, hb⟩ := Option.isSome_iff_exists.mp (TreeMap.mem_iff_isSome_getElem?.mp hi)
  exact (h.piece i b hb).1

/-- Every incomplete frame is made of pieces of a ciphertext in the ledger under its number. -/
def Holds (L : ℕ → Bytes → Prop) (buf : FragmentBuffer) : Prop :=
  ∀ seq entry, buf.frames[seq]? = some entry → ∃ ct, L seq ct ∧ Pieces ct entry

theorem Holds.mono {L L' : ℕ → Bytes → Prop} {buf : FragmentBuffer} (hL : ∀ q ct, L q ct → L' q ct)
    (h : Holds L buf) : Holds L' buf := fun seq entry he =>
  let ⟨ct, hct, hp⟩ := h seq entry he
  ⟨ct, hL seq ct hct, hp⟩

/-- An invariant of the entries survives any removal. -/
theorem Holds.of_subset {L : ℕ → Bytes → Prop} {buf buf' : FragmentBuffer} (h : Holds L buf)
    (hsub : ∀ (q : ℕ) (e : FrameFragments), buf'.frames[q]? = some e → buf.frames[q]? = some e) :
    Holds L buf' :=
  fun seq entry he => h seq entry (hsub seq entry he)

theorem getElem?_pruneSuperseded {frames : TreeMap ℕ FrameFragments} {seq q : ℕ} {e : FrameFragments}
    (h : (pruneSuperseded frames seq)[q]? = some e) : frames[q]? = some e := by
  rw [pruneSuperseded, TreeMap.getElem?_filter'] at h
  exact (Option.filter_eq_some_iff.mp h).1

theorem getElem?_pruneOverflow {frames : TreeMap ℕ FrameFragments} {q : ℕ} {e : FrameFragments}
    (h : (pruneOverflow frames)[q]? = some e) : frames[q]? = some e := by
  unfold pruneOverflow at h
  split at h
  · split at h
    · rw [TreeMap.getElem?_erase] at h
      split at h
      · cases h
      · exact h
    · exact h
  · exact h

/-- One more true fragment keeps the entry true, and adds its index. -/
theorem received_entry {buf : FragmentBuffer} {seq i : ℕ} (ack : ℕ) {ct : Bytes}
    (h : ∀ e, buf.frames[seq]? = some e → Pieces ct e) (hlong : FRAGMENT_PAYLOAD_SIZE < ct.length)
    (hi : i < fragmentCount ct) (wireLen : ℕ) :
    Pieces ct (buf.received (fragment seq ack ct i) wireLen) ∧
      ∀ j, j ∈ (buf.received (fragment seq ack ct i) wireLen).frags ↔
        j = i ∨ ∃ e, buf.frames[seq]? = some e ∧ j ∈ e.frags := by
  have hold : Pieces ct ((buf.frames[seq]?).getD
      { totalFrags := fragmentCount ct, wireLen := 0, frags := ∅ }) := by
    cases he : buf.frames[seq]? with
    | none => exact ⟨hlong, rfl, by simp⟩
    | some entry => exact h entry he
  refine ⟨⟨hlong, hold.total, fun j b hj => ?_⟩, fun j => ?_⟩
  · simp only [received, fragment, TreeMap.getElem?_insert, Nat.compare_eq_eq] at hj
    split at hj
    · cases hj; subst_vars; exact ⟨hi, rfl⟩
    · exact hold.piece j b hj
  · simp only [received, fragment, TreeMap.mem_insert, Nat.compare_eq_eq]
    cases he : buf.frames[seq]? with
    | none => simp [eq_comm]
    | some e => simp [eq_comm]

/-- STEP: feeding a fragment of a ledger ciphertext keeps the invariant, and a packet that comes out
    complete carries exactly that ciphertext. -/
theorem insert_holds {L : ℕ → Bytes → Prop} (hL : ∀ q ct ct', L q ct → L q ct' → ct = ct')
    {buf : FragmentBuffer} (h : Holds L buf) {seq ack : ℕ} {ct : Bytes} (hct : L seq ct)
    (hmax : fragmentCount ct ≤ 65535) {pkt : EncryptedServerPacket}
    (hpkt : pkt ∈ fragmentPackets seq ack ct) (wireLen : ℕ) :
    Holds L (buf.insert pkt wireLen).1 ∧ ∀ r, (buf.insert pkt wireLen).2 = some r →
      r.1.seqNum = seq ∧ r.1.ackSeqNum = ack ∧ r.2.1 = ct := by
  rcases (mem_fragmentPackets hmax).mp hpkt with ⟨-, rfl⟩ | ⟨hlong, i, hi, rfl⟩
  · simp only [insert, Nat.le_refl, if_true, Option.some.injEq]
    exact ⟨h, by rintro r rfl; exact ⟨rfl, rfl, rfl⟩⟩
  · have htotal := not_totalFrags_le_one seq ack i hlong
    have hentry : ∀ e, buf.frames[seq]? = some e → Pieces ct e := by
      intro e he
      obtain ⟨ct', hct', hp⟩ := h seq e he
      rw [hL seq ct ct' hct hct']
      exact hp
    have hpieces := (received_entry ack hentry hlong hi wireLen).1
    simp only [insert, htotal, if_false]
    split
    · -- complete: the pieces read back as the ciphertext
      rename_i hsize
      refine ⟨h.of_subset fun q e he => ?_, ?_⟩
      · have := getElem?_pruneSuperseded he
        rw [TreeMap.getElem?_erase] at this
        split at this
        · cases this
        · exact this
      · rintro r hr
        cases hr
        refine ⟨rfl, rfl, ?_⟩
        rw [hpieces.total] at hsize ⊢
        exact assemble_eq size_pos hsize hpieces.piece
    · refine ⟨fun q e he => ?_, by simp⟩
      have := getElem?_pruneOverflow he
      rw [TreeMap.getElem?_insert] at this
      split at this
      · rename_i hq
        obtain rfl : seq = q := Nat.compare_eq_eq.mp hq
        cases this
        exact ⟨ct, hct, hpieces⟩
      · exact h q e this

theorem pruneOverflow_eq {frames : TreeMap ℕ FrameFragments} (h : frames.size ≤ 32) :
    pruneOverflow frames = frames := by
  simp [pruneOverflow, Nat.not_lt.mpr h]

/-! ### The oldest frame is not the newest -/

theorem head_keys_le {frames : TreeMap ℕ FrameFragments} {m p : ℕ} (hm : frames.keys.head? = some m)
    (hp : p ∈ frames) : m ≤ p := by
  have hsort := TreeMap.ordered_keys (t := frames)
  have hmem : p ∈ frames.keys := TreeMap.mem_keys.mpr hp
  cases hk : frames.keys with
  | nil => simp [hk] at hmem
  | cons a rest =>
    rw [hk] at hm hmem hsort
    cases hm
    rcases List.mem_cons.mp hmem with rfl | hmem
    · exact le_rfl
    · exact (Nat.compare_eq_lt.mp ((List.pairwise_cons.mp hsort).1 p hmem)).le

/-- An overflow drops a frame below any that has an older one beside it. -/
theorem getElem?_pruneOverflow_of_lt {frames : TreeMap ℕ FrameFragments} {p q : ℕ} (hp : p ∈ frames)
    (hlt : p < q) : (pruneOverflow frames)[q]? = frames[q]? := by
  unfold pruneOverflow
  split
  · split
    · rename_i m hm
      have hne : m ≠ q := by
        have := head_keys_le hm hp
        omega
      simp [TreeMap.getElem?_erase, hne]
    · rfl
  · rfl

theorem exists_older {frames : TreeMap ℕ FrameFragments} {seq : ℕ} (hle : ∀ q ∈ frames, q ≤ seq)
    (hsize : 1 < frames.size) : ∃ p ∈ frames, p < seq := by
  by_contra hno
  have hsub : frames.keys.toFinset ⊆ {seq} := by
    intro q hq
    rw [List.mem_toFinset, TreeMap.mem_keys] at hq
    have hlt : ¬ q < seq := fun h => hno ⟨q, hq, h⟩
    have := hle q hq
    simp only [Finset.mem_singleton]
    omega
  have := Finset.card_le_card hsub
  rw [card_keys, Finset.card_singleton] at this
  omega

/-! ### The newest frame, fragment by fragment -/

/-- The frame `seq` is the newest in the buffer, and holds the fragments `got` of its ciphertext. -/
structure Newest (seq : ℕ) (ct : Bytes) (got : ℕ → Prop) (buf : FragmentBuffer) : Prop where
  le : ∀ q ∈ buf.frames, q ≤ seq
  pieces : ∀ e, buf.frames[seq]? = some e → Pieces ct e
  got : ∀ i, got i ↔ ∃ e, buf.frames[seq]? = some e ∧ i ∈ e.frags

variable {seq : ℕ} {ct : Bytes} {got : ℕ → Prop} {buf buf' : FragmentBuffer}

theorem newest_empty (h : buf.frames.isEmpty = true) (seq : ℕ) (ct : Bytes) :
    Newest seq ct (fun _ => False) buf := by
  refine ⟨fun q hq => ?_, fun e he => ?_, fun i => ?_⟩
  · exact absurd hq (TreeMap.isEmpty_iff_forall_not_mem.mp h q)
  · rw [TreeMap.getElem?_of_isEmpty h] at he
    cases he
  · simp [TreeMap.getElem?_of_isEmpty h]

theorem Newest.congr (h : Newest seq ct got buf) (hle : ∀ q ∈ buf'.frames, q ≤ seq)
    (heq : buf'.frames[seq]? = buf.frames[seq]?) : Newest seq ct got buf' :=
  ⟨hle, by rw [heq]; exact h.pieces, by rw [heq]; exact h.got⟩

/-- STEP: a packet with a lower number leaves the newest frame alone. -/
theorem Newest.insert_older (h : Newest seq ct got buf) {packet : EncryptedServerPacket}
    (hlt : packet.seqNum < seq) (wireLen : ℕ) : Newest seq ct got (buf.insert packet wireLen).1 := by
  rcases Nat.lt_or_ge 1 packet.totalFrags with hfrag | hwhole
  · by_cases hc : buf.Completes packet wireLen
    · rw [insert_completes hfrag hc]
      refine h.congr (fun q hq => ?_) ?_
      · rw [TreeMap.mem_iff_isSome_getElem?, getElem?_superseded] at hq
        split at hq
        · exact h.le q (TreeMap.mem_iff_isSome_getElem?.mpr hq)
        · cases hq
      · rw [getElem?_superseded, if_pos hlt]
    · rw [insert_incomplete hfrag hc]
      have hmem : packet.seqNum ∈ buf.inserted packet wireLen := by simp [inserted]
      refine h.congr (fun q hq => ?_) ?_
      · obtain ⟨e, he⟩ := Option.isSome_iff_exists.mp (TreeMap.mem_iff_isSome_getElem?.mp hq)
        have hq : q ∈ buf.inserted packet wireLen :=
          TreeMap.mem_iff_isSome_getElem?.mpr (by rw [getElem?_pruneOverflow he]; rfl)
        rcases TreeMap.mem_insert.mp hq with heq | hq
        · rw [← Nat.compare_eq_eq.mp heq]
          exact hlt.le
        · exact h.le q hq
      · have hne : packet.seqNum ≠ seq := Nat.ne_of_lt hlt
        rw [getElem?_pruneOverflow_of_lt hmem hlt]
        simp [inserted, TreeMap.getElem?_insert, hne]
  · rw [insert_whole hwhole]
    exact h

/-- The entry after one more fragment. -/
theorem Newest.received (h : Newest seq ct got buf) (ack : ℕ)
    (hlong : FRAGMENT_PAYLOAD_SIZE < ct.length) {i : ℕ} (hi : i < fragmentCount ct) (wireLen : ℕ) :
    Pieces ct (buf.received (fragment seq ack ct i) wireLen) ∧
      ∀ j, j ∈ (buf.received (fragment seq ack ct i) wireLen).frags ↔ j = i ∨ got j := by
  obtain ⟨hp, hmem⟩ := received_entry ack h.pieces hlong hi wireLen
  exact ⟨hp, fun j => (hmem j).trans (or_congr_right (h.got j).symm)⟩

theorem Newest.completes_iff (h : Newest seq ct got buf) (ack : ℕ)
    (hlong : FRAGMENT_PAYLOAD_SIZE < ct.length) {i : ℕ} (hi : i < fragmentCount ct) (wireLen : ℕ) :
    buf.Completes (fragment seq ack ct i) wireLen ↔ ∀ j < fragmentCount ct, j = i ∨ got j := by
  obtain ⟨hp, hmem⟩ := h.received ack hlong hi wireLen
  unfold Completes
  rw [hp.total, size_eq_iff hp.lt_of_mem]
  exact forall₂_congr fun j _ => hmem j

/-- STEP: a fragment that leaves another one missing only adds to the frame. -/
theorem Newest.insert_missing (h : Newest seq ct got buf) (ack : ℕ)
    (hlong : FRAGMENT_PAYLOAD_SIZE < ct.length) {i : ℕ} (hi : i < fragmentCount ct)
    (hmiss : ¬ ∀ j < fragmentCount ct, j = i ∨ got j) (wireLen : ℕ) :
    Newest seq ct (fun j => j = i ∨ got j) (buf.insert (fragment seq ack ct i) wireLen).1 := by
  obtain ⟨hp, hmem⟩ := h.received ack hlong hi wireLen
  have hfrag := Nat.not_le.mp (not_totalFrags_le_one seq ack i hlong)
  rw [insert_incomplete hfrag (fun hc => hmiss ((h.completes_iff ack hlong hi wireLen).mp hc))]
  have hle : ∀ q ∈ buf.inserted (fragment seq ack ct i) wireLen, q ≤ seq := by
    intro q hq
    rcases TreeMap.mem_insert.mp hq with heq | hq
    · exact (Nat.compare_eq_eq.mp heq).symm.le
    · exact h.le q hq
  have hkeep : (pruneOverflow (buf.inserted (fragment seq ack ct i) wireLen))[seq]? =
      some (buf.received (fragment seq ack ct i) wireLen) := by
    have hget : (buf.inserted (fragment seq ack ct i) wireLen)[seq]? =
        some (buf.received (fragment seq ack ct i) wireLen) := by
      simp [inserted, fragment]
    by_cases hsize : (buf.inserted (fragment seq ack ct i) wireLen).size ≤ 32
    · rw [pruneOverflow_eq hsize, hget]
    · obtain ⟨p, hp, hlt⟩ := exists_older hle (by omega)
      rw [getElem?_pruneOverflow_of_lt hp hlt, hget]
  refine ⟨fun q hq => ?_, fun e he => ?_, fun j => ?_⟩
  · obtain ⟨e, he⟩ := Option.isSome_iff_exists.mp (TreeMap.mem_iff_isSome_getElem?.mp hq)
    exact hle q (TreeMap.mem_iff_isSome_getElem?.mpr (by rw [getElem?_pruneOverflow he]; rfl))
  · rw [hkeep] at he
    cases he
    exact hp
  · rw [hkeep, ← hmem j]
    simp

/-- STEP: the last missing fragment completes the frame. -/
theorem Newest.insert_last (h : Newest seq ct got buf) (ack : ℕ)
    (hlong : FRAGMENT_PAYLOAD_SIZE < ct.length) {i : ℕ} (hi : i < fragmentCount ct)
    (hall : ∀ j < fragmentCount ct, j = i ∨ got j) (wireLen : ℕ) :
    ∃ len, (buf.insert (fragment seq ack ct i) wireLen).2 =
      some (completedPacket (fragment seq ack ct i), ct, len) := by
  obtain ⟨hp, -⟩ := h.received ack hlong hi wireLen
  have hc := (h.completes_iff ack hlong hi wireLen).mpr hall
  have hsize : (buf.received (fragment seq ack ct i) wireLen).frags.size = fragmentCount ct :=
    Eq.trans hc hp.total
  rw [insert_completes (Nat.not_le.mp (not_totalFrags_le_one seq ack i hlong)) hc]
  refine ⟨(buf.received (fragment seq ack ct i) wireLen).wireLen, ?_⟩
  rw [assembled, hp.total, fragmentCount, assemble_eq size_pos hsize hp.piece]

/-! ### One frame, fragment by fragment -/

/-- The buffer holds nothing but the fragments `got` of one long ciphertext. -/
structure Collecting (seq : ℕ) (ct : Bytes) (got : ℕ → Prop) (buf : FragmentBuffer) : Prop where
  only : ∀ (q : ℕ) (e : FrameFragments), buf.frames[q]? = some e →
    q = seq ∧ Pieces ct e ∧ ∀ i, i ∈ e.frags ↔ got i
  small : buf.frames.size ≤ 1
  absent : buf.frames[seq]? = none → ∀ i, ¬ got i

theorem collecting_empty {buf : FragmentBuffer} (h : buf.frames.isEmpty = true) (seq : ℕ) (ct : Bytes) :
    Collecting seq ct (fun _ => False) buf := by
  refine ⟨fun q e he => ?_, ?_, fun _ _ => not_false⟩
  · rw [TreeMap.getElem?_of_isEmpty h] at he
    cases he
  · rw [TreeMap.isEmpty_eq_size_eq_zero, beq_iff_eq] at h
    omega

theorem Collecting.newest (h : Collecting seq ct got buf) : Newest seq ct got buf := by
  refine ⟨fun q hq => ?_, fun e he => (h.only seq e he).2.1, fun i => ⟨fun hgot => ?_, ?_⟩⟩
  · obtain ⟨e, he⟩ := Option.isSome_iff_exists.mp (TreeMap.mem_iff_isSome_getElem?.mp hq)
    exact (h.only q e he).1.le
  · cases he : buf.frames[seq]? with
    | none => exact absurd hgot (h.absent he i)
    | some e => exact ⟨e, rfl, ((h.only seq e he).2.2 i).mpr hgot⟩
  · rintro ⟨e, he, hi⟩
    exact ((h.only seq e he).2.2 i).mp hi

variable {i : ℕ}

/-- STEP: a fragment that leaves another one missing only adds to the collection. -/
theorem Collecting.insert_missing (h : Collecting seq ct got buf) (ack : ℕ)
    (hlong : FRAGMENT_PAYLOAD_SIZE < ct.length) (hi : i < fragmentCount ct)
    (hmiss : ∃ j < fragmentCount ct, ¬ (j = i ∨ got j)) (wireLen : ℕ) :
    (buf.insert (fragment seq ack ct i) wireLen).2 = none ∧
      Collecting seq ct (fun j => j = i ∨ got j) (buf.insert (fragment seq ack ct i) wireLen).1 := by
  obtain ⟨hp, hmem⟩ := h.newest.received ack hlong hi wireLen
  have hfrag := Nat.not_le.mp (not_totalFrags_le_one seq ack i hlong)
  have hincomplete : ¬ buf.Completes (fragment seq ack ct i) wireLen := by
    intro hc
    obtain ⟨j, hj, hnot⟩ := hmiss
    exact hnot ((h.newest.completes_iff ack hlong hi wireLen).mp hc j hj)
  have hsmall : (buf.frames.insert seq (buf.received (fragment seq ack ct i) wireLen)).size ≤ 1 := by
    rw [TreeMap.size_insert]
    split
    · exact h.small
    · rename_i hc
      have : buf.frames.isEmpty = true := by
        rw [TreeMap.isEmpty_iff_forall_not_mem]
        intro q hq
        obtain ⟨e, he⟩ := Option.isSome_iff_exists.mp (TreeMap.mem_iff_isSome_getElem?.mp hq)
        exact hc ((h.only q e he).1 ▸ TreeMap.mem_iff_contains.mp hq)
      rw [TreeMap.isEmpty_eq_size_eq_zero, beq_iff_eq] at this
      omega
  rw [insert_incomplete hfrag hincomplete]
  refine ⟨rfl, ?_⟩
  show Collecting seq ct _ ⟨pruneOverflow (buf.frames.insert seq _)⟩
  rw [pruneOverflow_eq (by omega)]
  refine ⟨fun q e he => ?_, hsmall, fun hnone => by simp at hnone⟩
  rw [TreeMap.getElem?_insert] at he
  split at he
  · rename_i hq
    cases he
    exact ⟨(Nat.compare_eq_eq.mp hq).symm, hp, hmem⟩
  · rename_i hq
    exact absurd (Nat.compare_eq_eq.mpr (h.only q e he).1.symm) hq

/-- STEP: the last missing fragment completes the frame. -/
theorem Collecting.insert_last (h : Collecting seq ct got buf) (ack : ℕ)
    (hlong : FRAGMENT_PAYLOAD_SIZE < ct.length) (hi : i < fragmentCount ct)
    (hall : ∀ j < fragmentCount ct, j = i ∨ got j) (wireLen : ℕ) :
    ∃ pkt len, (buf.insert (fragment seq ack ct i) wireLen).2 = some (pkt, ct, len) ∧
      pkt.seqNum = seq ∧ pkt.ackSeqNum = ack := by
  obtain ⟨len, hins⟩ := h.newest.insert_last ack hlong hi hall wireLen
  exact ⟨_, len, hins, rfl, rfl⟩

end FragmentBuffer

end Rumsh.Protocol
