import Rumsh.Server.Replay
import Rumsh.Server.Emits

/-! What a turn of the server's session takes from the client.

    A turn leaves the window alone, sets it for a handshake, puts one packet aside, or applies the
    expected packet and the run behind it. -/

namespace Rumsh.Server
open Std Rumsh.Schemes Rumsh.Protocol

namespace AuthoritativeSession
variable {C T : Type} [PacketCodec C] [TerminalState T]

/-- A handshake that is not ignored and whose number is not the one before the window: it moves the
    window. -/
def displaces (s : AuthoritativeSession C T) : SessionEvent → Bool
  | .packet bytes _ now _ =>
    match PacketCodec.openClient s.codec bytes with
    | .ok (w, _, _) =>
      w.sessionId == 0 && !s.ignoresHandshake now && decide (w.seqNum + 1 ≠ s.expectedClientSeq)
    | .error _ => false
  | _ => false

/-- How the window and the PTY log change in a turn. -/
inductive Intake (s : AuthoritativeSession C T) (ev : SessionEvent) (s' : AuthoritativeSession C T) : Prop
  | none (happ : s.applies ev = []) (hexp : s'.expectedClientSeq = s.expectedClientSeq)
      (hack : s'.ackSeqNum = s.ackSeqNum) (hheld : s'.outOfOrderPackets = s.outOfOrderPackets)
      (hcalls : s'.clientCalls = s.clientCalls)
  | reset {bytes : Bytes} {src : SocketAddr} {now : Instant} {echo : Bool}
      {w : EncryptedClientPacket} {p : ClientPayload} {st : CodecStats}
      (hev : ev = .packet bytes src now echo)
      (hopen : PacketCodec.openClient s.codec bytes = .ok (w, p, st)) (h0 : w.sessionId = 0)
      (hguard : s.ignoresHandshake now = false) (happ : s.applies ev = [])
      (hexp : s'.expectedClientSeq = w.seqNum + 1) (hack : s'.ackSeqNum = w.seqNum)
      (hheld : s'.outOfOrderPackets = ∅) (hcalls : s'.clientCalls = s.clientCalls)
  | early {bytes : Bytes} {src : SocketAddr} {now : Instant} {echo : Bool}
      {w : EncryptedClientPacket} {p : ClientPayload} {st : CodecStats}
      (hev : ev = .packet bytes src now echo)
      (hopen : PacketCodec.openClient s.codec bytes = .ok (w, p, st)) (h0 : w.sessionId ≠ 0)
      (hsid : w.sessionId = s.sessionId) (htrans : isTransient w.seqNum p = false)
      (happ : s.applies ev = []) (hexp : s'.expectedClientSeq = s.expectedClientSeq)
      (hack : s'.ackSeqNum = s.ackSeqNum)
      (hheld : s'.outOfOrderPackets = s.outOfOrderPackets.insert w.seqNum p)
      (hcalls : s'.clientCalls = s.clientCalls)
  | inOrder {bytes : Bytes} {src : SocketAddr} {now : Instant} {echo : Bool}
      {w : EncryptedClientPacket} {p : ClientPayload} {st : CodecStats}
      (hev : ev = .packet bytes src now echo)
      (hopen : PacketCodec.openClient s.codec bytes = .ok (w, p, st)) (h0 : w.sessionId ≠ 0)
      (hsid : w.sessionId = s.sessionId) (htrans : isTransient w.seqNum p = false)
      (hseq : w.seqNum = s.expectedClientSeq) (happ : s.applies ev = s.packetsToProcess p)
      (hexp : s'.expectedClientSeq = (s.advance w.ackSeqNum).expectedClientSeq)
      (hack : s'.ackSeqNum = s'.expectedClientSeq - 1)
      (hheld : s'.outOfOrderPackets = (s.advance w.ackSeqNum).outOfOrderPackets)
      (hcalls : s'.clientCalls =
        s.clientCalls ++ (s.packetsToProcess p).flatMap fun e => callsOf e.2)

variable {s s' : AuthoritativeSession C T} {ev : SessionEvent} {actions : List (SessionAction C)}

/-- RUN: reliable packets all get through the processing loop. -/
theorem processedOf_eq (packets : List (ℕ × ClientPayload)) (s : AuthoritativeSession C T)
    (hk : ∀ seq ack, ∃ datagrams, PacketCodec.sealServer s.codec seq ack .keepAlive = .ok datagrams)
    (hp : ∀ p ∈ packets, isReliable p.2 = true) : processedOf packets s = packets := by
  induction packets generalizing s with
  | nil => rfl
  | cons p rest ih =>
    obtain ⟨t, more, ht⟩ := process_isSome hk (hp p (List.mem_cons_self ..))
    have hrest := ih t ((process_processed ht).codec ▸ hk) fun q hq => hp q (List.mem_cons_of_mem _ hq)
    simp [processedOf, ht, hrest]

omit [PacketCodec C] [TerminalState T] in
/-- What is taken out of the window was held in it, or is the packet that fills it. -/
theorem mem_packetsToProcess {p : ClientPayload} {e : ℕ × ClientPayload}
    (h : e ∈ s.packetsToProcess p) :
    e = (s.expectedClientSeq, p) ∨ s.outOfOrderPackets[e.1]? = some e.2 := by
  rcases List.mem_cons.mp h with h | h
  · exact .inl h
  · exact .inr (drain_mem _ _ _ e h)

omit [PacketCodec C] [TerminalState T] in
/-- What stays in the window was held in it. -/
theorem held_of_advance {ack n : ℕ} {p : ClientPayload}
    (h : (s.advance ack).outOfOrderPackets[n]? = some p) : s.outOfOrderPackets[n]? = some p := by
  have hd := getElem?_drain s.outOfOrderPackets.size s.outOfOrderPackets (s.expectedClientSeq + 1) n
  have h' : (drain s.outOfOrderPackets.size s.outOfOrderPackets
    (s.expectedClientSeq + 1)).2.1[n]? = some p := h
  rw [hd] at h'
  split at h'
  · cases h'
  · exact h'

omit [PacketCodec C] in
theorem clientCalls_checkSync (s : AuthoritativeSession C T) (now : Instant) (echo : Bool) :
    (s.checkSync now echo).1.clientCalls = s.clientCalls := by
  rw [clientCalls, (checkSync_sameWindow s now echo).pty]
  rfl

/-- A `checkSync` after the packet was taken changes nothing of this. -/
theorem Intake.checkSync {t : AuthoritativeSession C T} (h : Intake s ev t) (now : Instant)
    (echo : Bool) : Intake s ev (t.checkSync now echo).1 := by
  have hw := checkSync_sameWindow t now echo
  have hc := clientCalls_checkSync t now echo
  cases h with
  | none happ hexp hack hheld hcalls =>
    exact .none happ (hw.expectedClientSeq.trans hexp) (hw.ackSeqNum.trans hack)
      (hw.outOfOrderPackets.trans hheld) (hc.trans hcalls)
  | reset hev hopen h0 hguard happ hexp hack hheld hcalls =>
    exact .reset hev hopen h0 hguard happ (hw.expectedClientSeq.trans hexp)
      (hw.ackSeqNum.trans hack) (hw.outOfOrderPackets.trans hheld) (hc.trans hcalls)
  | early hev hopen h0 hsid htrans happ hexp hack hheld hcalls =>
    exact .early hev hopen h0 hsid htrans happ (hw.expectedClientSeq.trans hexp)
      (hw.ackSeqNum.trans hack) (hw.outOfOrderPackets.trans hheld) (hc.trans hcalls)
  | inOrder hev hopen h0 hsid htrans hseq happ hexp hack hheld hcalls =>
    refine .inOrder hev hopen h0 hsid htrans hseq happ (hw.expectedClientSeq.trans hexp) ?_
      (hw.outOfOrderPackets.trans hheld) (hc.trans hcalls)
    rw [hw.ackSeqNum, hw.expectedClientSeq, hack]

section Packet
variable {bytes : Bytes} {src : SocketAddr} {now : Instant} {echo : Bool}
  {w : EncryptedClientPacket} {p : ClientPayload} {st : CodecStats}

/-- A packet that is not the expected one of the session applies nothing. -/
theorem applies_eq_nil (hopen : PacketCodec.openClient s.codec bytes = .ok (w, p, st))
    (h : ¬ (w.sessionId ≠ 0 ∧ w.sessionId = s.sessionId ∧ isTransient w.seqNum p = false ∧
      w.seqNum = s.expectedClientSeq)) : s.applies (.packet bytes src now echo) = [] := by
  simp only [applies, hopen]
  exact if_neg h

/-- The expected packet: everything taken out of the window is processed. -/
theorem feedInOrder_intake {r : Except Error (List (SessionAction C))}
    (hk : ∀ seq ack, ∃ datagrams, PacketCodec.sealServer s.codec seq ack .keepAlive = .ok datagrams)
    (hopen : PacketCodec.openClient s.codec bytes = .ok (w, p, st)) (h0 : w.sessionId ≠ 0)
    (hsid : w.sessionId = s.sessionId) (htrans : isTransient w.seqNum p = false)
    (hseq : w.seqNum = s.expectedClientSeq)
    (hreliable : ∀ e ∈ s.packetsToProcess p, isReliable e.2 = true)
    (h : (s.heard src now).feedInOrder w.ackSeqNum p now echo = some (s', r)) :
    Intake s (.packet bytes src now echo) s' := by
  have hk' : ∀ seq ack, ∃ ds, PacketCodec.sealServer
      ((s.heard src now).advance w.ackSeqNum).codec seq ack .keepAlive = .ok ds := hk
  obtain ⟨u, acts, hu, hcalls⟩ :=
    processAll_isSome (s.packetsToProcess p) ((s.heard src now).advance w.ackSeqNum) [] hk' hreliable
  have hproc := processAll_processed hu
  have hu' : processAll ((s.heard src now).packetsToProcess p)
      ((s.heard src now).advance w.ackSeqNum) [] = some (u, .ok acts) := hu
  simp only [feedInOrder, hu'] at h
  obtain ⟨rfl, -⟩ := Prod.mk.inj (Option.some.inj h)
  have happ : s.applies (.packet bytes src now echo) = s.packetsToProcess p := by
    simp only [applies, hopen]
    rw [if_pos ⟨h0, hsid, htrans, hseq⟩]
    exact processedOf_eq _ _ hk' hreliable
  refine Intake.checkSync (.inOrder rfl hopen h0 hsid htrans hseq happ hproc.expectedClientSeq ?_
    hproc.outOfOrderPackets hcalls) now echo
  rw [hproc.ackSeqNum, hproc.expectedClientSeq]
  rfl

/-- A handshake leaves the window alone or sets it behind its number. -/
theorem feedHandshake_intake {r : Except Error (List (SessionAction C))}
    (hopen : PacketCodec.openClient s.codec bytes = .ok (w, p, st)) (h0 : w.sessionId = 0)
    (h : s.feedHandshake w.seqNum src now echo = (s', r)) :
    Intake s (.packet bytes src now echo) s' := by
  have hnone : s.applies (.packet bytes src now echo) = [] :=
    applies_eq_nil hopen fun hc => hc.1 h0
  rcases feedHandshake_cases h with ⟨-, rfl, -⟩ | ⟨hguard, u, rfl, hreset⟩
  · exact .none hnone rfl rfl rfl rfl
  · rcases hreset with ⟨e, -, rfl, -⟩ | ⟨ds, -, rfl, -⟩
    · exact .reset rfl hopen h0 hguard hnone rfl rfl rfl rfl
    · refine Intake.checkSync ?_ now echo
      exact .reset rfl hopen h0 hguard hnone rfl rfl rfl rfl

end Packet

/-- INVERSION: what a turn does to the window, if the packets for it are reliable ones. -/
theorem turn_intake
    (hk : ∀ seq ack, ∃ datagrams, PacketCodec.sealServer s.codec seq ack .keepAlive = .ok datagrams)
    (hheld : ∀ (n : ℕ) (p : ClientPayload), s.outOfOrderPackets[n]? = some p → isReliable p = true)
    (hrel : ∀ bytes src now echo w p st, ev = .packet bytes src now echo →
      PacketCodec.openClient s.codec bytes = .ok (w, p, st) → w.sessionId ≠ 0 →
      w.sessionId = s.sessionId → isTransient w.seqNum p = false → isReliable p = true)
    (h : s.turn ev = some (s', actions)) : Intake s ev s' := by
  cases ev with
  | ptyBytes data now =>
    cases h
    refine .none rfl rfl rfl rfl ?_
    show (s.pty ++ (TerminalState.write s.termState data).2.map PtyCall.reply).filter _ = _
    rw [List.filter_append, filter_reply, List.append_nil]
    rfl
  | tick now echo =>
    obtain rfl : (s.checkSync now echo).1 = s' := congrArg Prod.fst (Option.some.inj h)
    exact Intake.checkSync (.none rfl rfl rfl rfl rfl) now echo
  | packet bytes src now echo =>
    obtain ⟨⟨t, r⟩, ht, heq⟩ := Option.map_eq_some_iff.mp h
    obtain ⟨rfl, rfl⟩ := Prod.mk.inj heq
    rcases feedPacket_cases ht with ⟨rfl, -, hnot⟩ | ⟨w, p, st, hopen, hcase⟩
    · refine .none ?_ rfl rfl rfl rfl
      cases hopen : PacketCodec.openClient t.codec bytes with
      | error e => simp only [applies, hopen]
      | ok opened =>
        obtain ⟨w, p, st⟩ := opened
        exact applies_eq_nil hopen fun hc => (hnot w p st hopen).2 hc.2.1
    · rcases hcase with ⟨h0, hhs⟩ |
        ⟨h0, hsid, ⟨htr, hx⟩ | ⟨htr, ⟨hlt, rfl, -⟩ | ⟨hgt, -, rfl⟩ | ⟨hseq, ho⟩⟩⟩
      · exact feedHandshake_intake hopen h0 hhs
      · cases hx
        have hnone : s.applies (.packet bytes src now echo) = [] :=
          applies_eq_nil hopen fun hc => by rw [hc.2.2.1] at htr; cases htr
        refine Intake.checkSync ?_ now echo
        exact .none hnone rfl rfl rfl rfl
      · exact .none (applies_eq_nil hopen fun hc => by omega) rfl rfl rfl rfl
      · exact .early rfl hopen h0 hsid htr (applies_eq_nil hopen fun hc => by omega) rfl rfl rfl rfl
      · refine feedInOrder_intake hk hopen h0 hsid htr hseq (fun e he => ?_) ho
        rcases mem_packetsToProcess he with rfl | he
        · exact hrel bytes src now echo w p st rfl hopen h0 hsid htr
        · exact hheld e.1 e.2 he

end AuthoritativeSession

end Rumsh.Server
