import Rumsh.Protocol.Bounds
import Rumsh.Protocol.RoundTrip
import Rumsh.Server.Network

/-! Selective retransmission: what the client asks for and what the server sends again.

    The client packs the indices of the fragments it holds into a mask; the server goes over the frame it
    cached and sends what the mask does not show. The two sides are `setBits` and `testWord` of one
    bitmask, so what is sent again is what is missing, and it completes the frame. -/

namespace Rumsh.Protocol
open Std Rumsh.Schemes PacketCodec

namespace FragmentBuffer

/-- A buffer that collects one frame reports that frame, and the mask shows what it has. -/
theorem Collecting.getIncompleteFrames {seq : ℕ} {ct : Bytes} {got : ℕ → Prop} {buf : FragmentBuffer}
    (h : Collecting seq ct got buf) (hsome : ∃ i, got i) (hmiss : ∃ j < fragmentCount ct, ¬ got j) :
    ∃ mask, buf.getIncompleteFrames = [(seq, mask)] ∧ (∀ word ∈ mask, word < 2 ^ 64) ∧
      ∀ i < fragmentCount ct, testWord 64 mask i = true ↔ got i := by
  obtain ⟨e, he⟩ : ∃ e, buf.frames[seq]? = some e := by
    rw [← Option.isSome_iff_exists, Option.isSome_iff_ne_none]
    intro hnone
    obtain ⟨i, hi⟩ := hsome
    exact h.absent hnone i hi
  obtain ⟨-, hpieces, hmem⟩ := h.only seq e he
  have hlist : buf.frames.toList = [(seq, e)] := by
    have hin : (seq, e) ∈ buf.frames.toList := TreeMap.mem_toList_iff_getElem?_eq_some.mpr he
    have hlen : buf.frames.toList.length ≤ 1 := by
      rw [TreeMap.length_toList]
      exact h.small
    obtain ⟨x, hx⟩ := List.length_eq_one_iff.mp (Nat.le_antisymm hlen (List.length_pos_of_mem hin))
    rw [hx] at hin ⊢
    rw [List.mem_singleton.mp hin]
  have hsize : e.frags.size < e.totalFrags := by
    rw [hpieces.total]
    refine Nat.lt_of_le_of_ne (size_le hpieces.lt_of_mem) fun heq => ?_
    obtain ⟨j, hj, hnot⟩ := hmiss
    exact hnot ((hmem j).mp ((size_eq_iff hpieces.lt_of_mem).mp heq j hj))
  refine ⟨receivedMask e, ?_, ?_, fun i hi => ?_⟩
  · have hkeep : ¬ (e.totalFrags = 0 ∨ e.frags.size ≥ e.totalFrags) := by omega
    rw [FragmentBuffer.getIncompleteFrames, hlist]
    simp only [List.filterMap_cons, if_neg hkeep, List.filterMap_nil]
  · exact (receivedMask_spec e).2.1
  · rw [(receivedMask_spec e).2.2 i, and_iff_left (by have := hpieces.total; omega), hmem]

end FragmentBuffer

namespace ChaChaCodec
variable {cr : Crates} {seq ack : ℕ} {ct : Bytes} {datagrams : List Bytes}

/-- The datagram at an index is the fragment of that index. -/
theorem deserialize_getElem (hcr : cr.Lawful) (hlong : FRAGMENT_PAYLOAD_SIZE < ct.length)
    (hmax : fragmentCount ct ≤ 65535)
    (hmap : (fragmentPackets seq ack ct).mapM (serialize cr.serverPacket) = .ok datagrams) {i : ℕ}
    {x : Bytes} (hx : datagrams[i]? = some x) :
    i < fragmentCount ct ∧ deserialize cr.serverPacket x = .ok (fragment seq ack ct i) := by
  have hall := forall₂_of_mapM hmap
  obtain ⟨hi, rfl⟩ := List.getElem?_eq_some_iff.mp hx
  have hi' : i < (fragmentPackets seq ack ct).length := hall.length_eq ▸ hi
  have hcount : i < fragmentCount ct := length_fragmentPackets hlong ▸ hi'
  have hpkt : (fragmentPackets seq ack ct)[i] = fragment seq ack ct i := by
    have hchunk := getElem?_chunks hcount
    have hlen : chunkCount FRAGMENT_PAYLOAD_SIZE ct % 2 ^ 16 = fragmentCount ct :=
      Nat.mod_eq_of_lt (by unfold fragmentCount at hmax; omega)
    rw [← Option.some.injEq, ← List.getElem?_eq_getElem]
    simp only [fragmentPackets, Nat.not_le.mpr hlong, if_false, List.getElem?_map, List.getElem?_zipIdx,
      hchunk, Option.map_some, length_chunks, hlen, fragment, Nat.zero_add]
    rw [Nat.mod_eq_of_lt (by omega)]
  exact ⟨hcount, deserialize_of_serialize hcr.serverPacket (hpkt ▸ hall.get hi' hi)⟩

/-- The datagrams at these indices. -/
def pick (datagrams : List Bytes) (is : List ℕ) : List Bytes := is.filterMap fun i => datagrams[i]?

theorem mem_of_mem_pick {is : List ℕ} {x : Bytes} (hx : x ∈ pick datagrams is) : x ∈ datagrams := by
  obtain ⟨i, -, hi⟩ := List.mem_filterMap.mp hx
  exact List.mem_of_getElem? hi

/-- Different indices have different datagrams, so an index was picked exactly if its datagram was. -/
theorem fragment_mem_pick_iff (hcr : cr.Lawful) (hlong : FRAGMENT_PAYLOAD_SIZE < ct.length)
    (hmax : fragmentCount ct ≤ 65535)
    (hmap : (fragmentPackets seq ack ct).mapM (serialize cr.serverPacket) = .ok datagrams)
    {is : List ℕ} (his : ∀ i ∈ is, i < datagrams.length) (i : ℕ) :
    (∃ x ∈ pick datagrams is, deserialize cr.serverPacket x = .ok (fragment seq ack ct i)) ↔ i ∈ is := by
  constructor
  · rintro ⟨x, hx, hdes⟩
    obtain ⟨j, hj, hjx⟩ := List.mem_filterMap.mp hx
    have hdes' := (deserialize_getElem hcr hlong hmax hmap hjx).2
    obtain rfl := fragment_inj.mp (Except.ok.inj (hdes.symm.trans hdes'))
    exact hj
  · intro hi
    have hget := List.getElem?_eq_getElem (his i hi)
    exact ⟨_, List.mem_filterMap.mpr ⟨i, hi, hget⟩, (deserialize_getElem hcr hlong hmax hmap hget).2⟩

/-- RUN: the buffer after the fragments at some indices, in any order, collects just those. -/
theorem collecting_pick (hcr : cr.Lawful) (hlong : FRAGMENT_PAYLOAD_SIZE < ct.length)
    (hmax : fragmentCount ct ≤ 65535)
    (hmap : (fragmentPackets seq ack ct).mapM (serialize cr.serverPacket) = .ok datagrams)
    {client : ChaChaCodec cr} (hempty : client.fragmentBuffer.frames.isEmpty = true) {is : List ℕ}
    (his : ∀ i ∈ is, i < datagrams.length) (hmiss : ∃ i < datagrams.length, i ∉ is) :
    FragmentBuffer.Collecting seq ct (fun i => i ∈ is) (fed client (pick datagrams is)).fragmentBuffer := by
  obtain ⟨j, hj, hnot⟩ := hmiss
  have hiff := fragment_mem_pick_iff hcr hlong hmax hmap his
  have hout : ∃ x ∈ datagrams, x ∉ pick datagrams is := by
    have hget := List.getElem?_eq_getElem hj
    refine ⟨_, List.mem_of_getElem? hget, fun hin => hnot ((hiff j).mp ⟨_, hin, ?_⟩)⟩
    exact (deserialize_getElem hcr hlong hmax hmap hget).2
  have hcol := fed_collecting hcr hlong hmax hmap hempty (pick datagrams is)
    (fun x hx => mem_of_mem_pick hx) hout
  exact (funext fun i => propext (hiff i)) ▸ hcol

/-- A ciphertext sent in several datagrams is a long one, with a fragment in each. -/
theorem long_of_two_le
    (hmap : (fragmentPackets seq ack ct).mapM (serialize cr.serverPacket) = .ok datagrams)
    (htwo : 2 ≤ datagrams.length) :
    FRAGMENT_PAYLOAD_SIZE < ct.length ∧ fragmentCount ct = datagrams.length := by
  have hlong : FRAGMENT_PAYLOAD_SIZE < ct.length := by
    by_contra hle
    have hone := length_of_mapM hmap
    rw [fragmentPackets, if_pos (Nat.not_lt.mp hle), List.length_singleton] at hone
    omega
  exact ⟨hlong, by rw [← length_of_mapM hmap, length_fragmentPackets hlong]⟩

end ChaChaCodec

end Rumsh.Protocol

namespace Rumsh.Server
open Rumsh.Schemes Rumsh.Protocol

/-- The server reads the mask as the client packs it. -/
theorem isReceived_eq (mask : List ℕ) (i : ℕ) : ServerNode.isReceived mask i = testWord 64 mask i := rfl

/-- Filtering an enumerated list by position picks the positions. -/
theorem filter_zipIdx (l : List Bytes) (P : ℕ → Bool) (k : ℕ) :
    ((l.zipIdx k).filter fun e => P e.2).map Prod.fst =
      ((List.range' k l.length).filter P).filterMap fun i => l[i - k]? := by
  induction l generalizing k with
  | nil => rfl
  | cons a l ih =>
    have hrest : ((List.range' (k + 1) l.length).filter P).filterMap (fun i => (a :: l)[i - k]?) =
        ((List.range' (k + 1) l.length).filter P).filterMap fun i => l[i - (k + 1)]? := by
      refine List.filterMap_congr fun i hi => ?_
      have hle := (List.mem_range'_1.mp (List.mem_of_mem_filter hi)).1
      rw [show i - k = i - (k + 1) + 1 by omega, List.getElem?_cons_succ]
    rw [List.zipIdx_cons, List.length_cons, List.range'_succ]
    cases hP : P k with
    | true =>
      rw [List.filter_cons_of_pos (by simpa using hP), List.filter_cons_of_pos hP, List.map_cons, ih,
        List.filterMap_cons, Nat.sub_self, List.getElem?_cons_zero]
      exact congrArg (a :: ·) hrest.symm
    | false =>
      rw [List.filter_cons_of_neg (by simp [hP]), List.filter_cons_of_neg (by simp [hP]), ih, hrest]

/-- What is sent again of a cached frame is what the mask does not show, in order. -/
theorem missingFragments_eq {cache : List (ℕ × List Bytes)} {frameSeq : ℕ} {packets : List Bytes}
    (hcache : (cache.find? fun entry => entry.1 == frameSeq) = some (frameSeq, packets)) {mask : List ℕ}
    {held : List ℕ} (hmask : ∀ i < packets.length, testWord 64 mask i = true ↔ i ∈ held) :
    ServerNode.missingFragments cache frameSeq mask =
      ChaChaCodec.pick packets ((List.range packets.length).filter fun i => decide (i ∉ held)) := by
  simp only [ServerNode.missingFragments, hcache, isReceived_eq]
  refine (filter_zipIdx packets (fun i => !testWord 64 mask i) 0).trans ?_
  rw [← List.range_eq_range', ChaChaCodec.pick]
  simp only [Nat.sub_zero]
  congr 1
  refine List.filter_congr fun i hi => ?_
  have hbit := hmask i (List.mem_range.mp hi)
  by_cases hheld : i ∈ held
  · simp [hbit.mpr hheld, hheld]
  · simp [Bool.eq_false_iff.mpr (mt hbit.mp hheld), hheld]

end Rumsh.Server

namespace Rumsh.System
open Rumsh.Schemes Rumsh.Protocol Rumsh.Server PacketCodec ChaChaCodec

/-- The missing indices in some order, the last of them apart: it is none of the others, and with those
    held before they are all. -/
theorem split_missing {n last : ℕ} {held order : List ℕ}
    (h : (order ++ [last]).Perm ((List.range n).filter fun i => decide (i ∉ held))) :
    (∀ i ∈ order, i < n) ∧ last < n ∧ last ∉ held ++ order ∧
      ∀ j < n, j = last ∨ j ∈ held ++ order := by
  have hmem : ∀ i, i ∈ order ++ [last] ↔ i < n ∧ i ∉ held := by
    intro i
    rw [h.mem_iff, List.mem_filter, List.mem_range, decide_eq_true_eq]
  have hlast := (hmem last).mp (List.mem_append_right _ (List.mem_singleton.mpr rfl))
  have hnodup : (order ++ [last]).Nodup := h.nodup_iff.mpr (List.nodup_range.filter _)
  refine ⟨fun i hi => ((hmem i).mp (List.mem_append_left _ hi)).1, hlast.1, fun hin => ?_,
    fun j hj => ?_⟩
  · rcases List.mem_append.mp hin with hin | hin
    · exact hlast.2 hin
    · exact (List.nodup_append.mp hnodup).2.2 last hin last (List.mem_singleton.mpr rfl) rfl
  · by_cases hin : j ∈ held
    · exact .inr (List.mem_append_left _ hin)
    · rcases List.mem_append.mp ((hmem j).mpr ⟨hj, hin⟩) with ho | ho
      · exact .inr (List.mem_append_right _ ho)
      · exact .inl (List.mem_singleton.mp ho)

/-- RETRANSMISSION: a client that holds some but not all fragments of a frame, however they came, reports
    that frame alone; its mask reaches the server as it was packed; the server sends the fragments that
    are missing, each once; and whichever of them comes last completes the frame with the ciphertext
    that was sealed. -/
theorem retransmission_exact {cr : Crates} (hcr : cr.Lawful) {T : Type} (server client : ChaChaCodec cr)
    (hk : SameKeys client server) (hempty : client.fragmentBuffer.frames.isEmpty = true)
    {seq ack : ℕ} {payload : ServerPayload} {datagrams : List Bytes}
    (hseal : server.sealServer seq ack payload = .ok datagrams) (htwo : 2 ≤ datagrams.length)
    (hmax : datagrams.length ≤ 65535) {held : List ℕ} (hheld : ∀ i ∈ held, i < datagrams.length)
    (hsome : held ≠ []) (hproper : ∃ i < datagrams.length, i ∉ held) :
    ∃ mask, getIncompleteFrames (fed client (pick datagrams held)) = [(seq, mask)] ∧
      (∀ word ∈ mask, word < 2 ^ 64) ∧
      (∀ q a nack, (fed client (pick datagrams held)).sealClient client.sessionId q a
          (.fragmentNack seq mask) = .ok nack →
        ∃ w stats, server.openClient nack = .ok (w, .fragmentNack seq mask, stats)) ∧
      (∀ (n : ServerNode (ChaChaCodec cr) T) (target : SocketAddr),
        (n.fragmentCache.find? fun entry => entry.1 == seq) = some (seq, datagrams) →
        (n.executeAction (.resendFragments seq mask target)).sent = n.sent ++
          (pick datagrams ((List.range datagrams.length).filter fun i => decide (i ∉ held))).map
            fun bytes => (bytes, target)) ∧
      ∀ order last x, (order ++ [last]).Perm
          ((List.range datagrams.length).filter fun i => decide (i ∉ held)) →
        datagrams[last]? = some x →
        ∃ plain ct wire pkt len stats,
          serializeCompressed cr cr.serverPayload payload = .ok plain ∧
          server.crypto.encrypt cr seq plain = .ok ct ∧
          deserialize cr.serverPacket x = .ok wire ∧
          ((fed client (pick datagrams (held ++ order))).fragmentBuffer.insert wire x.length).2 =
            some (pkt, ct, len) ∧
          ((fed client (pick datagrams (held ++ order))).openServer x).2 =
            .ok (some (pkt, payload, stats)) := by
  obtain ⟨plain, ct, hplain, hct, hmap⟩ := sealServer_eq_ok hseal
  have hfit := fragmentCount_le hmap hmax
  obtain ⟨hlong, hcount⟩ := long_of_two_le hmap htwo
  have hcol : ∀ {is : List ℕ}, (∀ i ∈ is, i < datagrams.length) → (∃ i < datagrams.length, i ∉ is) →
      FragmentBuffer.Collecting seq ct (fun i => i ∈ is) (fed client (pick datagrams is)).fragmentBuffer :=
    fun his hmiss => collecting_pick hcr hlong hfit hmap hempty his hmiss
  obtain ⟨mask, hinc, hword, hbits⟩ := (hcol hheld hproper).getIncompleteFrames
    (List.exists_mem_of_ne_nil held hsome) (hcount ▸ hproper)
  rw [hcount] at hbits
  refine ⟨mask, hinc, hword, ?_, ?_, ?_⟩
  · intro q a nack hnack
    obtain ⟨h₁, h₂, h₃⟩ := sameKeys_fed client (pick datagrams held)
    obtain ⟨k₁, k₂, k₃⟩ := hk
    obtain ⟨w, stats, hopen⟩ := openClient_sealClient hcr
      ⟨h₁.trans k₁, h₂.trans k₂, h₃.trans k₃⟩ (.inr k₃) hnack
    exact ⟨_, stats, hopen⟩
  · intro n target hcache
    have hmissing := missingFragments_eq hcache hbits
    simp only [ServerNode.executeAction, hmissing]
  · intro order last x hperm hx
    obtain ⟨horder, hlast, hnot, hall⟩ := split_missing hperm
    have hfrags := hcol (fun i hi => (List.mem_append.mp hi).elim (hheld i) (horder i))
      ⟨last, hlast, hnot⟩
    obtain ⟨hlt, hdes⟩ := deserialize_getElem hcr hlong hfit hmap hx
    obtain ⟨pkt, len, hins, hs, -⟩ :=
      hfrags.insert_last ack hlong hlt (fun j hj => hall j (hcount ▸ hj)) x.length
    have hk' : (fed client (pick datagrams (held ++ order))).crypto = server.crypto :=
      (sameKeys_fed client _).1.trans hk.1
    obtain ⟨stats, hopen⟩ := openServer_of_insert hcr hk' hplain hct hdes hs hins
    exact ⟨plain, ct, _, pkt, len, stats, hplain, hct, hdes, hins, hopen⟩

/-- A frame of two datagrams of which the second arrived: the first is sent again. -/
theorem retransmission_exact_wideFrame :
    let server := ChaChaCodec.new Bincode.crates (Vector.replicate 32 0) (9 * 2 ^ 32)
    ∃ d₁ d₂ mask, server.sealServer 5 3 wideFrame = .ok [d₁, d₂] ∧
      getIncompleteFrames (fed server [d₂]) = [(5, mask)] ∧
      ∀ (n : ServerNode (ChaChaCodec Bincode.crates) TextTerminal) (target : SocketAddr),
        (n.fragmentCache.find? fun entry => entry.1 == 5) = some (5, [d₁, d₂]) →
        (n.executeAction (.resendFragments 5 mask target)).sent = n.sent ++ [(d₁, target)] := by
  intro server
  let ds := (server.sealServer 5 3 wideFrame).toOption.getD []
  have hseal : server.sealServer 5 3 wideFrame = .ok [ds.getD 0 [], ds.getD 1 []] := by decide +kernel
  obtain ⟨mask, hinc, -, -, hsend, -⟩ := retransmission_exact (T := TextTerminal) Bincode.crates_lawful
    server server ⟨rfl, rfl, rfl⟩ rfl hseal (by simp) (by simp)
    (show ∀ i ∈ [1], i < _ by simp) (by simp)
    ⟨0, by simp, by simp⟩
  exact ⟨_, _, mask, hseal, hinc, fun n target hcache => hsend n target hcache⟩

end Rumsh.System
