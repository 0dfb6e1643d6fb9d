import Rumsh.Server.Intake
import Rumsh.Server.Freshness

/-! What has arrived at the server's window.

    A number has arrived when it is below the window or waits in it. No turn forgets one, short of a
    handshake that resets the window; and nothing waits that could be taken. So when everything up to a
    number has arrived in any order, the window is beyond it. A keepalive that is applied is answered
    under the ack of the packet behind the whole run that was applied with it. -/

namespace Rumsh.Server
open Std Rumsh.Schemes Rumsh.Protocol

namespace AuthoritativeSession
variable {C T : Type}

/-- The reliable packet under this number has arrived. -/
def Got (s : AuthoritativeSession C T) (n : ℕ) : Prop := Has s.expectedClientSeq s.outOfOrderPackets n

/-- Nothing waits in the window that could be taken. -/
def Drained (s : AuthoritativeSession C T) : Prop := Ahead s.expectedClientSeq s.outOfOrderPackets

theorem drained_new [TerminalState T] {sid : ℕ} {codec : C} {c : ℕ} {addr : SocketAddr}
    {cols rows : ℕ} {now : Instant} {s : AuthoritativeSession C T}
    (h : AuthoritativeSession.new sid codec c addr cols rows now = .ok s) : s.Drained := by
  obtain ⟨t, -, h⟩ := bind_eq_ok.mp h
  cases h
  exact ahead_empty _

/-- Below 2^63 a reliable payload takes part in the ordering. -/
theorem isTransient_of_lt {n : ℕ} (hn : n < 2 ^ 63) {p : ClientPayload} (hp : isReliable p = true) :
    isTransient n p = false := by
  cases p <;> simp_all [isTransient, isReliable, Nat.testBit_lt_two_pow]

variable [PacketCodec C] [TerminalState T] {s s' : AuthoritativeSession C T} {ev : SessionEvent}
  {actions : List (SessionAction C)}

/-! ### The window -/

/-- INVERSION: without a handshake a turn leaves the window, puts a packet aside that lies above it, or
    takes the expected one with the run behind it. -/
theorem turn_slides (hid : s.sessionId ≠ 0) (hreset : s.resets ev = false)
    (h : s.turn ev = some (s', actions)) :
    (s'.expectedClientSeq = s.expectedClientSeq ∧ s'.outOfOrderPackets = s.outOfOrderPackets ∧
      ∀ n, reliableSeq s.codec s.sessionId ev = some n → n < s.expectedClientSeq) ∨
    (∃ n p, reliableSeq s.codec s.sessionId ev = some n ∧ s.expectedClientSeq < n ∧
      s'.expectedClientSeq = s.expectedClientSeq ∧
      s'.outOfOrderPackets = s.outOfOrderPackets.insert n p) ∨
    ∃ ack, reliableSeq s.codec s.sessionId ev = some s.expectedClientSeq ∧
      s'.expectedClientSeq = (s.advance ack).expectedClientSeq ∧
      s'.outOfOrderPackets = (s.advance ack).outOfOrderPackets := by
  have hsync : ∀ (t : AuthoritativeSession C T) now echo,
      (t.checkSync now echo).1.expectedClientSeq = t.expectedClientSeq ∧
      (t.checkSync now echo).1.outOfOrderPackets = t.outOfOrderPackets := fun t now echo =>
    ⟨(checkSync_sameWindow t now echo).expectedClientSeq,
      (checkSync_sameWindow t now echo).outOfOrderPackets⟩
  cases ev with
  | ptyBytes data now =>
    cases h
    exact .inl ⟨rfl, rfl, by simp [reliableSeq]⟩
  | tick now echo =>
    obtain rfl : (s.checkSync now echo).1 = s' := congrArg Prod.fst (Option.some.inj h)
    exact .inl ⟨(hsync s now echo).1, (hsync s now echo).2, by simp [reliableSeq]⟩
  | packet bytes src now echo =>
    obtain ⟨⟨t, r⟩, hf, heq⟩ := Option.map_eq_some_iff.mp h
    obtain ⟨rfl, rfl⟩ := Prod.mk.inj heq
    rcases feedPacket_cases hf with ⟨rfl, -, hnot⟩ | ⟨w, p, st, hopen, hcase⟩
    · refine .inl ⟨rfl, rfl, fun n hn => ?_⟩
      simp only [reliableSeq] at hn
      split at hn
      · rename_i w p st hopen
        split at hn
        · rename_i hrel
          exact absurd hrel.1 (hnot w p st hopen).2
        · cases hn
      · cases hn
    · have hseq : reliableSeq s.codec s.sessionId (.packet bytes src now echo) =
          if w.sessionId = s.sessionId ∧ isTransient w.seqNum p = false then some w.seqNum else none := by
        simp only [reliableSeq, hopen]
      rw [hseq]
      rcases hcase with ⟨h0, hhs⟩ | ⟨h0, hsid, ⟨htr, hx⟩ | ⟨htr, hcase⟩⟩
      · -- an ignored handshake
        have hign : s.ignoresHandshake now = true := by simpa [resets, hopen, h0] using hreset
        have hne : ¬ (w.sessionId = s.sessionId ∧ isTransient w.seqNum p = false) := fun hc =>
          hid (hc.1.symm.trans h0)
        rcases feedHandshake_cases hhs with ⟨-, rfl, -⟩ | ⟨hguard, -⟩
        · exact .inl ⟨rfl, rfl, fun n hn => by rw [if_neg hne] at hn; cases hn⟩
        · rw [hign] at hguard
          cases hguard
      · cases hx
        refine .inl ⟨(hsync _ now echo).1, (hsync _ now echo).2, fun n hn => ?_⟩
        rw [if_neg (by simp [htr])] at hn
        cases hn
      · rw [if_pos ⟨hsid, htr⟩]
        rcases hcase with ⟨hlt, rfl, -⟩ | ⟨hgt, -, rfl⟩ | ⟨heq, ho⟩
        · exact .inl ⟨rfl, rfl, fun n hn => Option.some.inj hn ▸ hlt⟩
        · exact .inr (.inl ⟨w.seqNum, p, rfl, hgt, rfl, rfl⟩)
        · refine .inr (.inr ⟨w.ackSeqNum, congrArg some heq, ?_⟩)
          rcases feedInOrder_cases ho with ⟨e, hp, -⟩ | ⟨u, acts, hp, rfl, -⟩
          · have hproc := processAll_processed hp
            exact ⟨hproc.expectedClientSeq, hproc.outOfOrderPackets⟩
          · have hproc := processAll_processed hp
            exact ⟨(hsync u now echo).1.trans hproc.expectedClientSeq,
              (hsync u now echo).2.trans hproc.outOfOrderPackets⟩

/-- STEP: what has arrived is not forgotten, what arrives is not either, and nothing waits that could be
    taken. -/
theorem turn_got (hid : s.sessionId ≠ 0) (hreset : s.resets ev = false)
    (h : s.turn ev = some (s', actions)) :
    (∀ n, s.Got n → s'.Got n) ∧ (∀ n, reliableSeq s.codec s.sessionId ev = some n → s'.Got n) ∧
      (s.Drained → s'.Drained) := by
  unfold Got Drained
  rcases turn_slides hid hreset h with ⟨hexp, hheld, hold⟩ | ⟨n, p, hn, hgt, hexp, hheld⟩ |
    ⟨ack, hn, hexp, hheld⟩
  · rw [hexp, hheld]
    exact ⟨fun n => id, fun n hn => .inl (hold n hn), id⟩
  · rw [hexp, hheld]
    refine ⟨fun m hm => hm.insert p, fun m hm => ?_, fun hd => hd.insert hgt p⟩
    obtain rfl := Option.some.inj (hn.symm.trans hm)
    exact .inr (TreeMap.mem_insert_self)
  · rw [hexp, hheld]
    refine ⟨fun m hm => hm.drain _, fun m hm => ?_, fun hd => hd.drain le_rfl⟩
    obtain rfl := Option.some.inj (hn.symm.trans hm)
    exact .inl (packetsToProcess_numbers s .keepAlive ack).2

/-! ### The answers to keepalives -/

theorem process_keepAlive {r : Except Error (List (SessionAction C))}
    (h : s.process .keepAlive = some (s', r)) :
    r = (PacketCodec.sealServer s.codec (s.seqNum + 1) s.ackSeqNum .keepAlive).map fun datagrams =>
      sendAll datagrams s.currentClientAddr := by
  simp only [process, sealNext] at h
  split at h <;> rename_i heq <;> obtain ⟨rfl, hseal⟩ := Prod.mk.inj heq <;> cases h <;> rw [hseal] <;> rfl

/-- RUN: the answers to the keepalives of the loop, all under the session's ack. -/
theorem processAll_replies {packets : List (ℕ × ClientPayload)} {actions' : List (SessionAction C)}
    (h : processAll packets s actions = some (s', .ok actions')) {n : ℕ}
    (hmem : (n, .keepAlive) ∈ packets) :
    ∃ q datagrams, PacketCodec.sealServer s.codec q s.ackSeqNum .keepAlive = .ok datagrams ∧
      ∀ d ∈ datagrams, d ∈ datagramsOf actions' := by
  induction packets generalizing s actions with
  | nil => cases hmem
  | cons p rest ih =>
    rcases processAll_cons_inv h with ⟨e, -, he⟩ | ⟨t, more, hp, hrest⟩
    · cases he
    · rcases List.mem_cons.mp hmem with rfl | hmem
      · have hr := process_keepAlive hp
        cases hseal : PacketCodec.sealServer s.codec (s.seqNum + 1) s.ackSeqNum .keepAlive with
        | error e =>
          rw [hseal] at hr
          cases hr
        | ok datagrams =>
          rw [hseal] at hr
          obtain rfl := Except.ok.inj hr
          refine ⟨_, datagrams, hseal, fun d hd => ?_⟩
          rcases processAll_emits hrest with ⟨e, he, -⟩ | ⟨new, hnew, -⟩
          · cases he
          · rw [Except.ok.inj hnew]
            simp [hd]
      · have hproc := process_processed hp
        obtain ⟨q, datagrams, hseal, hout⟩ := ih hrest hmem
        rw [hproc.codec, hproc.ackSeqNum] at hseal
        exact ⟨q, datagrams, hseal, hout⟩

/-! ### Turns of an honest client -/

section Reliable
variable
  (hk : ∀ seq ack, ∃ datagrams, PacketCodec.sealServer s.codec seq ack .keepAlive = .ok datagrams)
  (hheld : ∀ (n : ℕ) (p : ClientPayload), s.outOfOrderPackets[n]? = some p → isReliable p = true)
  (hrel : ∀ bytes src now echo w p st, ev = .packet bytes src now echo →
    PacketCodec.openClient s.codec bytes = .ok (w, p, st) → w.sessionId ≠ 0 →
    w.sessionId = s.sessionId → isTransient w.seqNum p = false → isReliable p = true)

omit [PacketCodec C] [TerminalState T] in
include hheld in
theorem packetsToProcess_reliable {p : ClientPayload} (hp : isReliable p = true) :
    ∀ e ∈ s.packetsToProcess p, isReliable e.2 = true := by
  intro e he
  rcases mem_packetsToProcess he with rfl | he
  · exact hp
  · exact hheld e.1 e.2 he

include hk hheld in
/-- The expected packet, if it is a reliable one, gets through the processing loop with its run. -/
theorem feedInOrder_eq {p : ClientPayload} (hp : isReliable p = true) (src : SocketAddr) (ack : ℕ)
    (now : Instant) (echo : Bool) :
    ∃ u acts, processAll (s.packetsToProcess p) ((s.heard src now).advance ack) [] = some (u, .ok acts) ∧
      (s.heard src now).feedInOrder ack p now echo =
        some ((u.checkSync now echo).1, .ok (acts ++ (u.checkSync now echo).2)) := by
  obtain ⟨u, acts, hu, -⟩ := processAll_isSome (s.packetsToProcess p) ((s.heard src now).advance ack) [] hk
    (packetsToProcess_reliable hheld hp)
  have hu' : processAll ((s.heard src now).packetsToProcess p) ((s.heard src now).advance ack) [] =
    some (u, .ok acts) := hu
  exact ⟨u, acts, hu, by simp only [feedInOrder, hu']⟩

include hk hheld hrel in
/-- A session whose client sends reliable payloads only, under the numbers of the window, never reaches
    the `unreachable!`. -/
theorem turn_total : ∃ s' actions, s.turn ev = some (s', actions) := by
  cases ev with
  | ptyBytes data now => exact ⟨_, _, rfl⟩
  | tick now echo => exact ⟨_, _, rfl⟩
  | packet bytes src now echo =>
    suffices hfeed : ∃ x, s.feedPacket bytes src now echo = some x by
      obtain ⟨x, hx⟩ := hfeed
      exact ⟨_, _, congrArg (Option.map _) hx⟩
    unfold feedPacket
    split
    · exact ⟨_, rfl⟩
    · rename_i w p st hopen
      split
      · exact ⟨_, rfl⟩
      · rename_i h0
        split
        · exact ⟨_, rfl⟩
        · rename_i hsid
          unfold feedHeard
          split
          · exact ⟨_, rfl⟩
          · rename_i htr
            split
            · exact ⟨_, rfl⟩
            · split
              · exact ⟨_, rfl⟩
              · obtain ⟨u, acts, -, heq⟩ := feedInOrder_eq hk hheld (hrel bytes src now echo w p st rfl
                  hopen h0 (not_not.mp hsid) (Bool.not_eq_true _ ▸ htr)) src w.ackSeqNum now echo
                exact ⟨_, heq⟩

include hk hheld hrel in
/-- A keepalive that a turn applies is answered in it, under the ack the turn leaves. -/
theorem turn_replies (h : s.turn ev = some (s', actions)) {n : ℕ}
    (hmem : (n, .keepAlive) ∈ s.applies ev) :
    ∃ q datagrams, PacketCodec.sealServer s.codec q s'.ackSeqNum .keepAlive = .ok datagrams ∧
      ∀ d ∈ datagrams, d ∈ datagramsOf actions := by
  cases ev with
  | ptyBytes data now => cases hmem
  | tick now echo => cases hmem
  | packet bytes src now echo =>
    simp only [applies] at hmem
    split at hmem
    · rename_i w p st hopen
      split at hmem
      · rename_i hin
        obtain ⟨h0, hsid, htr, hseq⟩ := hin
        have hp := hrel bytes src now echo w p st rfl hopen h0 hsid htr
        obtain ⟨u, acts, hu, heq⟩ := feedInOrder_eq hk hheld hp src w.ackSeqNum now echo
        rw [processedOf_eq _ ((s.heard src now).advance w.ackSeqNum) hk
          (packetsToProcess_reliable hheld hp)] at hmem
        obtain ⟨⟨t, r⟩, hf, hturn⟩ := Option.map_eq_some_iff.mp h
        obtain ⟨rfl, rfl⟩ := Prod.mk.inj hturn
        rw [feedPacket_eq_feedHeard hopen h0 hsid] at hf
        rcases feedHeard_cases hf with ⟨htr', -⟩ | ⟨-, ⟨hlt, -⟩ | ⟨hgt, -⟩ | ⟨-, ho⟩⟩
        · rw [htr] at htr'
          cases htr'
        · exact absurd hlt (hseq ▸ Nat.lt_irrefl _)
        · exact absurd hgt (hseq ▸ Nat.lt_irrefl _)
        · obtain ⟨q, datagrams, hseal, hout⟩ := processAll_replies hu hmem
          obtain ⟨rfl, rfl⟩ := Prod.mk.inj (Option.some.inj (heq.symm.trans ho))
          refine ⟨q, datagrams, ?_, fun d hd => by simp [actionsOf, hout d hd]⟩
          rw [(checkSync_sameWindow u now echo).ackSeqNum, (processAll_processed hu).ackSeqNum]
          exact hseal
      · cases hmem
    · cases hmem

end Reliable

end AuthoritativeSession

end Rumsh.Server
