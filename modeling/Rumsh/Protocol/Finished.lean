import Rumsh.Schemes.Run
import Rumsh.Protocol.RoundTrip

/-! Which finished frames come back to the fragment buffer.

    A frame that completes from its fragments drops the incomplete frames before it. Two other things
    do not: an unfragmented packet is returned without a look at the buffer, and a fragment of a frame
    that was returned already opens a new entry, which its late duplicates may complete again. -/

namespace Rumsh.Protocol
open Std Rumsh.Schemes

/-- A fragment buffer, the numbers it returned, and those of them it put together from fragments. -/
structure Finishing where
  buffer : FragmentBuffer
  returned : List ℕ
  completed : List ℕ

namespace Finishing

def start : Finishing := ⟨{}, [], []⟩

/-- One datagram, with its length. -/
def feed (w : Finishing) (d : EncryptedServerPacket × ℕ) : Finishing :=
  let (buffer, out) := w.buffer.insert d.1 d.2
  let seqs := (out.map fun r => r.1.seqNum).toList
  { buffer, returned := w.returned ++ seqs,
    completed := w.completed ++ if d.1.totalFrags ≤ 1 then [] else seqs }

def step (w : Finishing) (d : EncryptedServerPacket × ℕ) : Option Finishing := some (w.feed d)

/-- No frame was completed twice, and nothing at or below a returned number is held or reported. -/
structure Settled (w : Finishing) : Prop where
  once : w.completed.Nodup
  held : ∀ q ∈ w.buffer.frames, ∀ n ∈ w.returned, n < q
  reported : ∀ e ∈ w.buffer.getIncompleteFrames, ∀ n ∈ w.returned, n < e.1

/-- An unfragmented packet comes before every incomplete frame; a fragment is of a frame after all that
    were returned, or finds the buffer full, which then drops it at once. -/
def Timely (w : Finishing) (d : EncryptedServerPacket × ℕ) : Prop :=
  if d.1.totalFrags ≤ 1 then ∀ q ∈ w.buffer.frames, d.1.seqNum < q
  else (∀ n ∈ w.returned, n < d.1.seqNum) ∨ 32 ≤ w.buffer.frames.size

variable {w : Finishing} {d : EncryptedServerPacket × ℕ}

/-! ### What a fragment finds -/

/-- Only what is held can be reported. -/
theorem mem_of_reported {buf : FragmentBuffer} {e : ℕ × List ℕ} (h : e ∈ buf.getIncompleteFrames) :
    e.1 ∈ buf.frames := by
  obtain ⟨⟨seq, entry⟩, hmem, heq⟩ := List.mem_filterMap.mp h
  have hget := TreeMap.mem_toList_iff_getElem?_eq_some.mp hmem
  dsimp only at heq
  split at heq
  · cases heq
  · cases heq
    exact TreeMap.mem_iff_isSome_getElem?.mpr (by rw [hget]; rfl)

/-- A frame of several fragments does not complete with its first one. -/
theorem mem_of_completes {buf : FragmentBuffer} {packet : EncryptedServerPacket} {wireLen : ℕ}
    (htotal : 1 < packet.totalFrags) (hc : buf.Completes packet wireLen) :
    packet.seqNum ∈ buf.frames := by
  by_contra hnot
  have hnone : buf.frames[packet.seqNum]? = none := TreeMap.getElem?_eq_none hnot
  unfold FragmentBuffer.Completes FragmentBuffer.received at hc
  rw [hnone] at hc
  simp [TreeMap.size_insert] at hc
  omega

/-- A frame below all that are held is dropped at once when the buffer is full. -/
theorem mem_pruneOverflow_full {frames : TreeMap ℕ FrameFragments} {s q : ℕ} {entry : FrameFragments}
    (hs : ∀ p ∈ frames, s < p) (hfull : 32 ≤ frames.size)
    (hq : q ∈ FragmentBuffer.pruneOverflow (frames.insert s entry)) : q ∈ frames := by
  have hnew : s ∉ frames := fun hmem => absurd (hs s hmem) (Nat.lt_irrefl s)
  have hsize : (frames.insert s entry).size > 32 := by
    rw [TreeMap.size_insert, if_neg (by simpa using hnew)]
    omega
  have hself : s ∈ frames.insert s entry := TreeMap.mem_insert_self
  unfold FragmentBuffer.pruneOverflow at hq
  rw [if_pos hsize] at hq
  split at hq
  · rename_i m hm
    obtain ⟨hne, hq⟩ := TreeMap.mem_erase.mp hq
    have hle : m ≤ s := FragmentBuffer.head_keys_le hm hself
    rcases TreeMap.mem_insert.mp hq with heq | hq
    · have heq : s = q := Nat.compare_eq_eq.mp heq
      have hmem : m ∈ frames.insert s entry := by
        rw [← TreeMap.mem_keys]
        exact List.mem_of_head? hm
      rcases TreeMap.mem_insert.mp hmem with hms | hmem
      · rw [Nat.compare_eq_eq] at hms
        exact absurd (Nat.compare_eq_eq.mpr (hms.symm.trans heq)) hne
      · exact absurd (hs m hmem) (Nat.not_lt.mpr hle)
    · exact hq
  · rename_i hnil
    have hkeys : s ∈ (frames.insert s entry).keys := TreeMap.mem_keys.mpr hself
    rw [List.head?_eq_none_iff.mp hnil] at hkeys
    cases hkeys

/-! ### One datagram -/

/-- What holds along a run that has been settled so far. -/
structure Sound (w : Finishing) : Prop where
  settled : Settled w
  completed : ∀ n ∈ w.completed, n ∈ w.returned

/-- Reports need no proof of their own. -/
theorem settled_of_held (honce : w.completed.Nodup)
    (hheld : ∀ q ∈ w.buffer.frames, ∀ n ∈ w.returned, n < q) : Settled w :=
  ⟨honce, hheld, fun e he => hheld e.1 (mem_of_reported he)⟩

/-- STEP: an unfragmented packet. -/
theorem Sound.feed_whole (h : Sound w) (htotal : d.1.totalFrags ≤ 1) :
    (∀ n ∈ (w.feed d).completed, n ∈ (w.feed d).returned) ∧ (Settled (w.feed d) ↔ Timely w d) := by
  have hfeed : w.feed d = ⟨w.buffer, w.returned ++ [d.1.seqNum], w.completed⟩ := by
    simp [feed, FragmentBuffer.insert_whole htotal, htotal]
  rw [hfeed]
  refine ⟨fun n hn => List.mem_append_left _ (h.completed n hn), ?_⟩
  unfold Timely
  rw [if_pos htotal]
  constructor
  · exact fun hs q hq => hs.held q hq _ (List.mem_append_right _ (List.mem_singleton.mpr rfl))
  · intro ht
    refine settled_of_held h.settled.once fun q hq n hn => ?_
    rcases List.mem_append.mp hn with hn | hn
    · exact h.settled.held q hq n hn
    · rw [List.mem_singleton.mp hn]
      exact ht q hq

/-- STEP: the fragment a frame waited for. -/
theorem Sound.feed_completes (h : Sound w) (htotal : 1 < d.1.totalFrags)
    (hc : w.buffer.Completes d.1 d.2) :
    (∀ n ∈ (w.feed d).completed, n ∈ (w.feed d).returned) ∧ Settled (w.feed d) ∧ Timely w d := by
  have hfeed : w.feed d =
      ⟨⟨FragmentBuffer.pruneSuperseded (w.buffer.frames.erase d.1.seqNum) d.1.seqNum⟩,
        w.returned ++ [d.1.seqNum], w.completed ++ [d.1.seqNum]⟩ := by
    simp [feed, FragmentBuffer.insert_completes htotal hc, Nat.not_le.mpr htotal,
      FragmentBuffer.completedPacket]
  have hnew : ∀ n ∈ w.returned, n < d.1.seqNum := h.settled.held _ (mem_of_completes htotal hc)
  rw [hfeed]
  refine ⟨fun n hn => ?_, settled_of_held ?_ fun q hq n hn => ?_, ?_⟩
  · rcases List.mem_append.mp hn with hn | hn
    · exact List.mem_append_left _ (h.completed n hn)
    · exact List.mem_append_right _ hn
  · refine List.nodup_append.mpr ⟨h.settled.once, by simp, fun n hn m hm heq => ?_⟩
    rw [heq, List.mem_singleton.mp hm] at hn
    exact absurd (hnew _ (h.completed _ hn)) (Nat.lt_irrefl _)
  · have hlt : d.1.seqNum < q := by
      rw [TreeMap.mem_iff_isSome_getElem?, FragmentBuffer.getElem?_superseded] at hq
      by_contra hge
      rw [if_neg hge] at hq
      cases hq
    rcases List.mem_append.mp hn with hn | hn
    · exact (hnew n hn).trans hlt
    · rw [List.mem_singleton.mp hn]
      exact hlt
  · unfold Timely
    rw [if_neg (Nat.not_le.mpr htotal)]
    exact .inl hnew

/-- STEP: any other fragment. -/
theorem Sound.feed_incomplete (h : Sound w) (htotal : 1 < d.1.totalFrags)
    (hc : ¬ w.buffer.Completes d.1 d.2) :
    (∀ n ∈ (w.feed d).completed, n ∈ (w.feed d).returned) ∧ (Settled (w.feed d) ↔ Timely w d) := by
  have hfeed : w.feed d =
      ⟨⟨FragmentBuffer.pruneOverflow (w.buffer.inserted d.1 d.2)⟩, w.returned, w.completed⟩ := by
    simp [feed, FragmentBuffer.insert_incomplete htotal hc, Nat.not_le.mpr htotal]
  rw [hfeed]
  refine ⟨h.completed, ?_⟩
  unfold Timely
  rw [if_neg (Nat.not_le.mpr htotal)]
  have hlate : ¬ (∀ n ∈ w.returned, n < d.1.seqNum) →
      ∃ n ∈ w.returned, d.1.seqNum ≤ n ∧ ∀ q ∈ w.buffer.frames, d.1.seqNum < q := by
    intro hnot
    obtain ⟨n, hn, hle⟩ : ∃ n ∈ w.returned, d.1.seqNum ≤ n := by simpa using hnot
    exact ⟨n, hn, hle, fun q hq => hle.trans_lt (h.settled.held q hq n hn)⟩
  constructor
  · intro hs
    by_contra hnot
    obtain ⟨hnew, hroom⟩ := not_or.mp hnot
    obtain ⟨n, hn, hle, -⟩ := hlate hnew
    have hsize : (w.buffer.inserted d.1 d.2).size ≤ 32 := by
      unfold FragmentBuffer.inserted
      rw [TreeMap.size_insert]
      split <;> omega
    have hmem : d.1.seqNum ∈ FragmentBuffer.pruneOverflow (w.buffer.inserted d.1 d.2) := by
      rw [FragmentBuffer.pruneOverflow_eq hsize]
      exact TreeMap.mem_insert_self
    exact absurd (hs.held _ hmem n hn) (Nat.not_lt.mpr hle)
  · intro ht
    refine settled_of_held h.settled.once fun q hq n hn => ?_
    by_cases hnew : ∀ n ∈ w.returned, n < d.1.seqNum
    · have hmem : q ∈ w.buffer.inserted d.1 d.2 := by
        obtain ⟨e, he⟩ := Option.isSome_iff_exists.mp (TreeMap.mem_iff_isSome_getElem?.mp hq)
        exact TreeMap.mem_iff_isSome_getElem?.mpr (by rw [FragmentBuffer.getElem?_pruneOverflow he]; rfl)
      rcases TreeMap.mem_insert.mp hmem with heq | hmem
      · rw [← Nat.compare_eq_eq.mp heq]
        exact hnew n hn
      · exact h.settled.held q hmem n hn
    · -- a late fragment is below all that is held, so a full buffer drops it again
      obtain ⟨-, -, -, hbelow⟩ := hlate hnew
      have hmem := mem_pruneOverflow_full hbelow (ht.resolve_left hnew) hq
      exact h.settled.held q hmem n hn

/-- STEP: a datagram leaves the buffer settled exactly if it is timely. -/
theorem Sound.feed (h : Sound w) :
    (∀ n ∈ (w.feed d).completed, n ∈ (w.feed d).returned) ∧ (Settled (w.feed d) ↔ Timely w d) := by
  by_cases htotal : d.1.totalFrags ≤ 1
  · exact h.feed_whole htotal
  · have htotal := Nat.not_le.mp htotal
    by_cases hc : w.buffer.Completes d.1 d.2
    · obtain ⟨hcomp, hs, ht⟩ := h.feed_completes htotal hc
      exact ⟨hcomp, iff_of_true hs ht⟩
    · exact h.feed_incomplete htotal hc

/-! ### Runs -/

theorem settled_start : Settled start := settled_of_held .nil (by simp [start])

/-- RUN: finished and superseded frames stay finished exactly if every datagram is timely. -/
theorem finished_iff (datagrams : List (EncryptedServerPacket × ℕ)) :
    StepsMeet step (fun w d => Settled (w.feed d)) start datagrams ↔
      StepsMeet step Timely start datagrams := by
  have hstart : Sound start := ⟨settled_start, by simp [start]⟩
  constructor
  · refine StepsMeet.imp_of_invariant (fun w d w' h hs heq => ?_) (fun w d h hs => h.feed.2.mp hs) hstart
    obtain rfl := Option.some.inj heq
    exact ⟨hs, h.feed.1⟩
  · refine StepsMeet.imp_of_invariant (fun w d w' h ht heq => ?_) (fun w d h ht => h.feed.2.mpr ht) hstart
    obtain rfl := Option.some.inj heq
    exact ⟨h.feed.2.mpr ht, h.feed.1⟩

/-- After a run that was settled throughout, nothing was completed twice and nothing finished is held. -/
theorem settled_of_run {datagrams : List (EncryptedServerPacket × ℕ)} {w' : Finishing} (h : Settled w)
    (hmeet : StepsMeet step (fun w d => Settled (w.feed d)) w datagrams)
    (hrun : runFrom step w datagrams = some w') : Settled w' := by
  refine run_invariant (fun w d w' _ hs heq => ?_) datagrams h hmeet hrun
  obtain rfl := Option.some.inj heq
  exact hs

theorem not_settled_of_completed {datagrams : List (EncryptedServerPacket × ℕ)} {seqs : List ℕ}
    (hrun : (runFrom step start datagrams).map completed = some seqs) (hdup : ¬ seqs.Nodup) :
    ¬ StepsMeet step (fun w d => Settled (w.feed d)) start datagrams := by
  intro hmeet
  obtain ⟨w, hw, rfl⟩ := Option.map_eq_some_iff.mp hrun
  exact hdup (settled_of_run settled_start hmeet hw).once

/-- What was returned, and what the buffer reports as incomplete. -/
def shown (w : Finishing) : List ℕ × List ℕ :=
  (w.returned, w.buffer.getIncompleteFrames.map Prod.fst)

theorem not_settled_of_shown {datagrams : List (EncryptedServerPacket × ℕ)} {n q : ℕ}
    (hrun : (runFrom step start datagrams).map shown = some ([n], [q])) (hle : q ≤ n) :
    ¬ StepsMeet step (fun w d => Settled (w.feed d)) start datagrams := by
  intro hmeet
  obtain ⟨w, hw, heq⟩ := Option.map_eq_some_iff.mp hrun
  obtain ⟨hret, hinc⟩ := Prod.mk.inj heq
  obtain ⟨e, he, rfl⟩ : ∃ e ∈ w.buffer.getIncompleteFrames, e.1 = q :=
    List.mem_map.mp (by rw [hinc]; exact List.mem_cons_self ..)
  have hlt := (settled_of_run settled_start hmeet hw).reported e he n
    (by rw [hret]; exact List.mem_cons_self ..)
  omega

/-- The packets of a payload as a server seals it, with the lengths of their datagrams. -/
def sealedPackets (seq : ℕ) (payload : ServerPayload) : List (EncryptedServerPacket × ℕ) :=
  let codec := ChaChaCodec.new Bincode.crates (Vector.replicate 32 0) (2 ^ 32)
  ((codec.sealServer seq 1 payload).toOption.getD []).filterMap fun bytes =>
    (deserialize Bincode.crates.serverPacket bytes).toOption.map (·, bytes.length)

/-- Both fragments of frame 1. -/
def widePackets : List (EncryptedServerPacket × ℕ) := sealedPackets 1 ChaChaCodec.wideFrame

/-- Its first fragment, and a reply to a keepalive after it. -/
def overtakenPackets : List (EncryptedServerPacket × ℕ) :=
  widePackets.take 1 ++ sealedPackets 2 .keepAlive

/-- Late duplicates of both fragments of frame 1 complete it again; and packet 2 leaves its first fragment
    where it is. -/
theorem finished_frame_comes_back :
    (runFrom step start (widePackets ++ widePackets)).map completed = some [1, 1] ∧
    (runFrom step start overtakenPackets).map shown = some ([2], [1]) ∧
    ¬ StepsMeet step (fun w d => Settled (w.feed d)) start (widePackets ++ widePackets) ∧
    ¬ StepsMeet step (fun w d => Settled (w.feed d)) start overtakenPackets := by
  have htwice : (runFrom step start (widePackets ++ widePackets)).map completed = some [1, 1] := by
    decide +kernel
  have hleft : (runFrom step start overtakenPackets).map shown = some ([2], [1]) := by decide +kernel
  exact ⟨htwice, hleft, not_settled_of_completed htwice (by decide),
    not_settled_of_shown hleft (by decide)⟩

end Finishing

end Rumsh.Protocol
