import Rumsh.Schemes.Bitmask
import Rumsh.Protocol.Reassembly

/-! The reassembly buffer under any packets.

    The counters of a packet are not authenticated before its frame is complete, so the buffer is fed
    whatever arrives. It stays small, every frame it holds waits for a fragment, and the two `unwrap`s of
    `insert` find what they ask for. -/

namespace Rumsh.Protocol
open Std Rumsh.Schemes

namespace FragmentBuffer

/-- `insert` as the source has it, with its two `unwrap`s: the entry goes into the map before anything is
    looked at, and is taken out again when it is complete. -/
def insertUnwrapping (buf : FragmentBuffer) (packet : EncryptedServerPacket) (wireLen : ℕ) :
    Option (FragmentBuffer × Option (EncryptedServerPacket × Bytes × ℕ)) :=
  if packet.totalFrags ≤ 1 then some (buf, some (packet, packet.ciphertext, wireLen))
  else
    let entry := buf.received packet wireLen
    let frames := buf.frames.insert packet.seqNum entry
    if entry.frags.size = entry.totalFrags then
      (frames[packet.seqNum]?).map fun entry =>
        ({ frames := pruneSuperseded (frames.erase packet.seqNum) packet.seqNum },
          some (completedPacket packet, assemble entry.totalFrags entry.frags, entry.wireLen))
    else if frames.size > 32 then
      (frames.keys.head?).map fun minSeq => ({ frames := frames.erase minSeq }, none)
    else some ({ frames }, none)

variable {buf : FragmentBuffer} {packet : EncryptedServerPacket} {wireLen : ℕ}

theorem head_keys_isSome {frames : TreeMap ℕ FrameFragments} (h : 32 < frames.size) :
    ∃ minSeq, frames.keys.head? = some minSeq := by
  cases hk : frames.keys with
  | nil =>
    have hlen := TreeMap.length_keys (t := frames)
    rw [hk, List.length_nil] at hlen
    omega
  | cons minSeq rest => exact ⟨minSeq, rfl⟩

/-- It makes no difference that the entry of a completed frame was in the map for a moment. -/
theorem getElem?_superseded_insert {frames : TreeMap ℕ FrameFragments} {seq : ℕ}
    {entry : FrameFragments} (q : ℕ) :
    (pruneSuperseded ((frames.insert seq entry).erase seq) seq)[q]? =
      if seq < q then frames[q]? else none := by
  rw [getElem?_superseded, TreeMap.getElem?_insert]
  split
  · rename_i hlt
    rw [if_neg fun h => absurd (Nat.compare_eq_eq.mp h) hlt.ne]
  · rfl

/-- NO PANIC: no `unwrap` fails, the answer is that of `insert`, and the maps have the same entries. -/
theorem insertUnwrapping_eq (buf : FragmentBuffer) (packet : EncryptedServerPacket) (wireLen : ℕ) :
    ∃ buf', buf.insertUnwrapping packet wireLen = some (buf', (buf.insert packet wireLen).2) ∧
      buf'.frames.Equiv (buf.insert packet wireLen).1.frames := by
  by_cases htotal : packet.totalFrags ≤ 1
  · rw [insert_whole htotal, insertUnwrapping, if_pos htotal]
    exact ⟨buf, rfl, TreeMap.Equiv.rfl⟩
  have htotal' : 1 < packet.totalFrags := Nat.not_le.mp htotal
  unfold insertUnwrapping
  rw [if_neg htotal]
  dsimp only
  by_cases hc : buf.Completes packet wireLen
  · have hc' : (buf.received packet wireLen).frags.size = (buf.received packet wireLen).totalFrags := hc
    rw [if_pos hc', TreeMap.getElem?_insert_self, insert_completes htotal' hc]
    refine ⟨_, rfl, TreeMap.Equiv.of_forall_constGet?_eq fun q => ?_⟩
    exact (getElem?_superseded_insert q).trans (getElem?_superseded q).symm
  · have hc' : ¬ (buf.received packet wireLen).frags.size =
      (buf.received packet wireLen).totalFrags := hc
    rw [if_neg hc', insert_incomplete htotal' hc]
    have hframes : buf.frames.insert packet.seqNum (buf.received packet wireLen) =
      buf.inserted packet wireLen := rfl
    rw [hframes, pruneOverflow]
    split
    · rename_i hsize
      obtain ⟨minSeq, hmin⟩ := head_keys_isSome hsize
      rw [hmin]
      exact ⟨_, rfl, TreeMap.Equiv.rfl⟩
    · exact ⟨_, rfl, TreeMap.Equiv.rfl⟩

/-! ### The bounds -/

/-- A held frame waits for a fragment and has one. -/
structure Waiting (entry : FrameFragments) : Prop where
  total : 2 ≤ entry.totalFrags
  some_held : 1 ≤ entry.frags.size
  one_missing : entry.frags.size < entry.totalFrags

/-- At most 32 frames, each of them waiting. -/
structure Bounded (buf : FragmentBuffer) : Prop where
  size : buf.frames.size ≤ 32
  waiting : ∀ (seq : ℕ) (entry : FrameFragments), buf.frames[seq]? = some entry → Waiting entry

theorem bounded_empty : Bounded {} :=
  ⟨Nat.zero_le _, fun seq entry h => by
    rw [show ({} : FragmentBuffer).frames[seq]? = none from TreeMap.getElem?_emptyc] at h
    cases h⟩

/-- The entry after a fragment: complete, or waiting. -/
theorem Bounded.received (h : Bounded buf) (htotal : 1 < packet.totalFrags)
    (hc : ¬ buf.Completes packet wireLen) : Waiting (buf.received packet wireLen) := by
  have hbefore : 2 ≤ (buf.received packet wireLen).totalFrags ∧
      (buf.received packet wireLen).frags.size ≤ (buf.received packet wireLen).totalFrags := by
    unfold FragmentBuffer.received
    cases hentry : buf.frames[packet.seqNum]? with
    | none => exact ⟨htotal, (TreeMap.size_insert_le).trans (by simpa using htotal.le)⟩
    | some entry =>
      have hw := h.waiting _ _ hentry
      exact ⟨hw.total, TreeMap.size_insert_le.trans hw.one_missing⟩
  refine ⟨hbefore.1, ?_, Nat.lt_of_le_of_ne hbefore.2 hc⟩
  have hmem : packet.fragIdx ∈ (buf.received packet wireLen).frags := TreeMap.mem_insert_self
  rw [← TreeMap.length_keys]
  exact List.length_pos_of_mem (TreeMap.mem_keys.mpr hmem)

theorem size_pruneOverflow {frames : TreeMap ℕ FrameFragments} (h : frames.size ≤ 33) :
    (pruneOverflow frames).size ≤ 32 := by
  unfold pruneOverflow
  split
  · rename_i hsize
    obtain ⟨minSeq, hmin⟩ := head_keys_isSome hsize
    have hmem : minSeq ∈ frames := TreeMap.mem_keys.mp (List.mem_of_mem_head? hmin)
    rw [hmin]
    dsimp only
    rw [TreeMap.size_erase, if_pos (TreeMap.contains_iff_mem.mpr hmem)]
    omega
  · omega

/-- STEP: any packet keeps the bounds. -/
theorem Bounded.insert (h : Bounded buf) (packet : EncryptedServerPacket) (wireLen : ℕ) :
    Bounded (buf.insert packet wireLen).1 := by
  by_cases htotal : packet.totalFrags ≤ 1
  · rw [insert_whole htotal]
    exact h
  have htotal' : 1 < packet.totalFrags := Nat.not_le.mp htotal
  by_cases hc : buf.Completes packet wireLen
  · rw [insert_completes htotal' hc]
    refine ⟨?_, fun seq entry he => ?_⟩
    · exact (TreeMap.size_filter_le_size.trans TreeMap.size_erase_le).trans h.size
    · rw [getElem?_superseded] at he
      split at he
      · exact h.waiting seq entry he
      · cases he
  · rw [insert_incomplete htotal' hc]
    refine ⟨size_pruneOverflow (TreeMap.size_insert_le.trans (Nat.succ_le_succ h.size)),
      fun seq entry he => ?_⟩
    have he := getElem?_pruneOverflow he
    rw [inserted, TreeMap.getElem?_insert] at he
    split at he
    · cases he
      exact h.received htotal' hc
    · exact h.waiting seq entry he

/-- The buffer after any packets. -/
def insertAll (buf : FragmentBuffer) (packets : List (EncryptedServerPacket × ℕ)) : FragmentBuffer :=
  packets.foldl (fun buf p => (buf.insert p.1 p.2).1) buf

/-- RUN: and so does any sequence of them. -/
theorem Bounded.insertAll (packets : List (EncryptedServerPacket × ℕ)) {buf : FragmentBuffer}
    (h : Bounded buf) : Bounded (buf.insertAll packets) := by
  induction packets generalizing buf with
  | nil => exact h
  | cons p packets ih => exact ih (h.insert p.1 p.2)

/-! ### The report -/

/-- The client's mask is the packed list of the indices it holds. -/
theorem receivedMask_eq (entry : FrameFragments) :
    receivedMask entry =
      setBits 64 (List.replicate ((entry.totalFrags + (64 - 1)) / 64) 0) entry.frags.keys := rfl

/-- One word for 64 fragments, and of the words there are the bits of what is held. -/
theorem receivedMask_spec (entry : FrameFragments) :
    (receivedMask entry).length = (entry.totalFrags + 63) / 64 ∧
    (∀ word ∈ receivedMask entry, word < 2 ^ 64) ∧
    ∀ i, testWord 64 (receivedMask entry) i = true ↔
      i ∈ entry.frags ∧ i < 64 * ((entry.totalFrags + 63) / 64) := by
  have hlen : (receivedMask entry).length = (entry.totalFrags + 63) / 64 := by
    rw [receivedMask_eq, length_setBits, List.length_replicate]
  refine ⟨hlen, ?_, fun i => ?_⟩
  · rw [receivedMask_eq]
    refine setBits_lt (by decide) _ _ fun word hword => ?_
    rw [(List.mem_replicate.mp hword).2]
    decide
  · by_cases hi : i < 64 * ((entry.totalFrags + 63) / 64)
    · have hword : i / 64 < (List.replicate ((entry.totalFrags + (64 - 1)) / 64) 0).length := by
        rw [List.length_replicate]
        omega
      rw [receivedMask_eq, testWord_setBits _ _ hword, testWord_zero, Bool.false_or, decide_eq_true_eq,
        TreeMap.mem_keys, and_iff_left hi]
    · refine iff_of_false (fun h => hi ?_) fun h => hi h.2
      rw [← hlen]
      exact lt_of_testWord (by decide) h

/-- Every held frame is reported, by its mask. -/
theorem Bounded.getIncompleteFrames (h : Bounded buf) :
    buf.getIncompleteFrames = buf.frames.toList.map fun held => (held.1, receivedMask held.2) := by
  unfold FragmentBuffer.getIncompleteFrames
  rw [← List.filterMap_eq_map]
  refine List.filterMap_congr fun held hheld => ?_
  have hw := h.waiting _ _ (TreeMap.mem_toList_iff_getElem?_eq_some.mp hheld)
  have htotal := hw.total
  have hmissing := hw.one_missing
  have hkeep : ¬ (held.2.totalFrags = 0 ∨ held.2.frags.size ≥ held.2.totalFrags) := by omega
  exact if_neg hkeep

/-- HOSTILE INPUT: after any packets, and before any next one, the buffer is bounded, no `unwrap` fails,
    and every frame held is reported, oldest first, with the mask of what is held. -/
theorem insertAll_bounded (packets : List (EncryptedServerPacket × ℕ)) :
    (insertAll {} packets).frames.size ≤ 32 ∧
    (∀ (seq : ℕ) (entry : FrameFragments), (insertAll {} packets).frames[seq]? = some entry →
      2 ≤ entry.totalFrags ∧ 1 ≤ entry.frags.size ∧ entry.frags.size ≤ entry.totalFrags - 1) ∧
    (∀ packet wireLen, ∃ buf', (insertAll {} packets).insertUnwrapping packet wireLen =
        some (buf', ((insertAll {} packets).insert packet wireLen).2) ∧
      buf'.frames.Equiv ((insertAll {} packets).insert packet wireLen).1.frames) ∧
    (insertAll {} packets).getIncompleteFrames =
      (insertAll {} packets).frames.toList.map (fun held => (held.1, receivedMask held.2)) ∧
    ((insertAll {} packets).getIncompleteFrames.map Prod.fst).Pairwise (· < ·) ∧
    ∀ (seq : ℕ) (entry : FrameFragments), (insertAll {} packets).frames[seq]? = some entry →
      (receivedMask entry).length = (entry.totalFrags + 63) / 64 ∧
      (∀ word ∈ receivedMask entry, word < 2 ^ 64) ∧
      ∀ i, testWord 64 (receivedMask entry) i = true ↔
        i ∈ entry.frags ∧ i < 64 * ((entry.totalFrags + 63) / 64) := by
  have h := Bounded.insertAll packets bounded_empty
  refine ⟨h.size, fun seq entry he => ?_, insertUnwrapping_eq _, h.getIncompleteFrames, ?_,
    fun seq entry _ => receivedMask_spec entry⟩
  · have hw := h.waiting seq entry he
    exact ⟨hw.total, hw.some_held, Nat.le_sub_one_of_lt hw.one_missing⟩
  · rw [h.getIncompleteFrames, List.map_map]
    have hkeys := TreeMap.ordered_keys (t := (insertAll {} packets).frames)
    rw [← TreeMap.map_fst_toList_eq_keys] at hkeys
    exact hkeys.imp Nat.compare_eq_lt.mp

end FragmentBuffer

end Rumsh.Protocol
