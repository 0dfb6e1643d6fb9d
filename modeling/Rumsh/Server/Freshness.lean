import Rumsh.Server.Replay

/-! Freshness: what an old packet can still do to the session.

    A packet of the session that came before, or that fills a gap late, carries an old ack and an old
    source address. The transient branch takes an ack only if it is newer; the in-order branch takes it
    as it is. The source address is taken from every packet of the session, before the branch that
    drops duplicates. -/

namespace Rumsh.Server
open Std Rumsh.Schemes Rumsh.Protocol

/-- Where a datagram came from. -/
def SessionEvent.source : SessionEvent → Option SocketAddr
  | .packet _ src _ _ => some src
  | _ => none

namespace AuthoritativeSession
variable {C T : Type} [PacketCodec C] [TerminalState T]

/-! ### The client's ack -/

/-- A handshake that gets past the guard. -/
def resets (s : AuthoritativeSession C T) : SessionEvent → Bool
  | .packet bytes _ now _ =>
    match PacketCodec.openClient s.codec bytes with
    | .ok (w, _, _) => w.sessionId == 0 && !s.ignoresHandshake now
    | .error _ => false
  | _ => false

/-- The expected reliable packet, with an ack older than the one the session holds. -/
def lowersAck (s : AuthoritativeSession C T) : SessionEvent → Bool
  | .packet bytes _ _ _ =>
    match PacketCodec.openClient s.codec bytes with
    | .ok (w, p, _) =>
      decide (w.sessionId ≠ 0 ∧ w.sessionId = s.sessionId ∧ isTransient w.seqNum p = false ∧
        w.seqNum = s.expectedClientSeq ∧ w.ackSeqNum < s.clientAckSeq)
    | .error _ => false
  | _ => false

variable {s s' : AuthoritativeSession C T} {ev : SessionEvent}

theorem clientAckSeq_feedInOrder {ack : ℕ} {payload : ClientPayload} {now : Instant} {echo : Bool}
    {r : Except Error (List (SessionAction C))}
    (h : s.feedInOrder ack payload now echo = some (s', r)) : s'.clientAckSeq = ack := by
  rcases feedInOrder_cases h with ⟨e, hp, -⟩ | ⟨t, actions, hp, rfl, -⟩
  · exact (processAll_processed hp).clientAckSeq
  · rw [(checkSync_sameWindow t now echo).clientAckSeq]
    exact (processAll_processed hp).clientAckSeq

/-- STEP: without a handshake, the client's ack goes back exactly at an expected packet with an older
    one. -/
theorem step_clientAckSeq (h : s.step ev = some s') (hr : s.resets ev = false) :
    s.clientAckSeq ≤ s'.clientAckSeq ↔ s.lowersAck ev = false := by
  cases ev with
  | ptyBytes data now => cases h; simp [lowersAck, onPtyBytes]
  | tick now echo =>
    cases h
    simp [lowersAck, onTick, (checkSync_sameWindow s now echo).clientAckSeq]
  | packet bytes src now echo =>
    obtain ⟨⟨t, r⟩, hfeed, rfl⟩ := Option.map_eq_some_iff.mp h
    rcases feedPacket_cases hfeed with ⟨rfl, -, hnot⟩ | ⟨w, p, st, hopen, hcase⟩
    · simp only [Nat.le_refl, lowersAck, true_iff]
      split
      · rename_i w p st hopen
        simp [(hnot w p st hopen).2]
      · rfl
    · simp only [resets, hopen, Bool.and_eq_false_iff, beq_eq_false_iff_ne, Bool.not_eq_false'] at hr
      simp only [lowersAck, hopen, decide_eq_false_iff_not]
      rcases hcase with ⟨h0, hhs⟩ | ⟨h0, hsid, hcase⟩
      · have hi : s.ignoresHandshake now = true := hr.resolve_left (not_not.mpr h0)
        rcases feedHandshake_cases hhs with ⟨-, rfl, -⟩ | ⟨hi', -⟩
        · exact iff_of_true le_rfl fun hc => hc.1 h0
        · rw [hi] at hi'
          cases hi'
      · rcases hcase with ⟨htr, ht⟩ | ⟨htr, ⟨hlt, rfl, -⟩ | ⟨hgt, -, rfl⟩ | ⟨hseq, ho⟩⟩
        · cases ht
          rw [(checkSync_sameWindow _ now echo).clientAckSeq]
          refine iff_of_true (Nat.le_max_left _ _) fun hc => ?_
          rw [hc.2.2.1] at htr
          cases htr
        · exact iff_of_true le_rfl fun hc => by omega
        · exact iff_of_true le_rfl fun hc => by omega
        · rw [clientAckSeq_feedInOrder ho, ← Nat.not_lt]
          exact not_congr ⟨fun h => ⟨h0, hsid, htr, hseq, h⟩, fun h => h.2.2.2.2⟩

/-- ACK MONOTONE: over any run without a handshake, whatever packets it is handed and in whatever
    order, the client's ack never decreases exactly when no expected packet brings an older one. -/
theorem clientAckSeq_monotone_iff {s₀ : AuthoritativeSession C T} {events : List SessionEvent}
    (hrun : runFrom AuthoritativeSession.step s₀ events = some s)
    (hno : StepsMeet AuthoritativeSession.step (fun s ev => s.resets ev = false) s₀ events) :
    StepsMeet AuthoritativeSession.step
        (fun s ev => ∀ s', s.step ev = some s' → s.clientAckSeq ≤ s'.clientAckSeq) s₀ events ↔
      StepsMeet AuthoritativeSession.step (fun s ev => s.lowersAck ev = false) s₀ events := by
  refine stepsMeet_congr (fun t ev t' hr ht => ?_) hno hrun
  rw [← step_clientAckSeq ht hr]
  exact ⟨fun h => h t' ht, fun h u hu => Option.some.inj (ht.symm.trans hu) ▸ h⟩

/-- A keystroke sent before any frame was seen arrives after the ack of the first frame, and takes the
    client's ack from 1 back to 0. -/
theorem late_keystroke_lowers_ack :
    ∃ (s₀ : AuthoritativeSession (ChaChaCodec Bincode.crates) TextTerminal) (keys ack : Bytes),
      let addr : SocketAddr := ⟨0, 0⟩
      let codec := ChaChaCodec.new Bincode.crates (Vector.replicate 32 0) (2 ^ 32)
      let events := [SessionEvent.tick 0 false, .packet ack addr 1 false, .packet keys addr 2 false]
      new (2 ^ 32) codec 1 addr 8 2 0 = .ok s₀ ∧
      codec.sealClient (2 ^ 32) 2 0 (.keystrokes [0x61]) = .ok keys ∧
      codec.sealClient (2 ^ 32) (1 <<< 63 ||| 1) 1 .ack = .ok ack ∧
      StepsMeet AuthoritativeSession.step (fun s ev => s.resets ev = false) s₀ events ∧
      ¬ StepsMeet AuthoritativeSession.step
        (fun s ev => ∀ s', s.step ev = some s' → s.clientAckSeq ≤ s'.clientAckSeq) s₀ events := by
  refine ⟨_, _, _, rfl, rfl, rfl, ?_, ?_⟩
  · decide +kernel
  · intro h
    have hle := ((h.2 _ rfl).2 _ rfl).1 _ rfl
    revert hle
    decide +kernel

/-- The same packets in the order they were sent. -/
theorem clientAckSeq_monotone_in_order :
    ∃ (s₀ s : AuthoritativeSession (ChaChaCodec Bincode.crates) TextTerminal) (keys ack : Bytes),
      let addr : SocketAddr := ⟨0, 0⟩
      let codec := ChaChaCodec.new Bincode.crates (Vector.replicate 32 0) (2 ^ 32)
      let events := [SessionEvent.tick 0 false, .packet keys addr 1 false, .packet ack addr 2 false]
      new (2 ^ 32) codec 1 addr 8 2 0 = .ok s₀ ∧
      codec.sealClient (2 ^ 32) 2 0 (.keystrokes [0x61]) = .ok keys ∧
      codec.sealClient (2 ^ 32) (1 <<< 63 ||| 1) 1 .ack = .ok ack ∧
      runFrom AuthoritativeSession.step s₀ events = some s ∧
      StepsMeet AuthoritativeSession.step
        (fun s ev => ∀ s', s.step ev = some s' → s.clientAckSeq ≤ s'.clientAckSeq) s₀ events := by
  refine ⟨_, _, _, _, rfl, rfl, rfl, rfl, ?_⟩
  refine (clientAckSeq_monotone_iff rfl ?_).mpr ?_
  · decide +kernel
  · decide +kernel

/-! ### The client's address -/

/-- The session next to the datagrams of it that it was handed so far. -/
structure Watched (C T : Type) where
  session : AuthoritativeSession C T
  seen : List Bytes

/-- The datagram, if it opens as a packet of this session. -/
def accepts (s : AuthoritativeSession C T) : SessionEvent → List Bytes
  | .packet bytes _ _ _ =>
    match PacketCodec.openClient s.codec bytes with
    | .ok (w, _, _) => if w.sessionId ≠ 0 ∧ w.sessionId = s.sessionId then [bytes] else []
    | .error _ => []
  | _ => []

def Watched.step (x : Watched C T) (ev : SessionEvent) : Option (Watched C T) :=
  (x.session.step ev).map fun s' => ⟨s', x.seen ++ x.session.accepts ev⟩

/-- A datagram of the session that was seen before, and is transient or lies before the window. -/
def Watched.repeats (x : Watched C T) : SessionEvent → Bool
  | .packet bytes _ _ _ =>
    match PacketCodec.openClient x.session.codec bytes with
    | .ok (w, p, _) =>
      decide (bytes ∈ x.seen ∧ w.sessionId ≠ 0 ∧ w.sessionId = x.session.sessionId ∧
        (isTransient w.seqNum p = true ∨ w.seqNum < x.session.expectedClientSeq))
    | .error _ => false
  | _ => false

/-- STEP: a repeated datagram leaves the address alone exactly when it comes from there. -/
theorem repeats_currentClientAddr {x : Watched C T} (hrep : x.repeats ev = true) :
    (∀ s', x.session.step ev = some s' → s'.currentClientAddr = x.session.currentClientAddr) ↔
      ev.source = some x.session.currentClientAddr := by
  cases ev with
  | ptyBytes data now => cases hrep
  | tick now echo => cases hrep
  | packet bytes src now echo =>
    simp only [Watched.repeats] at hrep
    split at hrep
    · rename_i w p st hopen
      obtain ⟨-, h0, hsid, hold⟩ := of_decide_eq_true hrep
      have haddr : ∃ s', x.session.step (.packet bytes src now echo) = some s' ∧
          s'.currentClientAddr = src := by
        simp only [AuthoritativeSession.step, feedPacket_eq_feedHeard hopen h0 hsid, feedHeard]
        split
        · exact ⟨_, rfl, (checkSync_sameWindow _ now echo).currentClientAddr⟩
        · rename_i htr
          have hlt : w.seqNum < (x.session.heard src now).expectedClientSeq := hold.resolve_left htr
          rw [if_pos hlt]
          exact ⟨_, rfl, rfl⟩
      obtain ⟨s', hs', rfl⟩ := haddr
      rw [SessionEvent.source, Option.some.injEq]
      exact ⟨fun h => h s' hs', fun h u hu => Option.some.inj (hs'.symm.trans hu) ▸ h⟩
    · cases hrep

end AuthoritativeSession

end Rumsh.Server
