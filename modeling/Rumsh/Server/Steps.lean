import Rumsh.Schemes.Run
import Rumsh.Server.Session

/-! What each operation of the server's session can change.

    `SameWindow` is the frame of the frame scheduler, `Processed` that of the processing loop, and
    `feedPacket_cases` says once what a datagram can do. Every invariant of the session is derived from
    these; no later proof unfolds the session's code. -/

namespace Rumsh.Server
open Std Rumsh.Schemes Rumsh.Protocol

namespace AuthoritativeSession
variable {C T : Type}

/-! ### The frame scheduler -/

/-- The two sessions agree on all that `check_sync` leaves alone. -/
structure SameWindow (s s' : AuthoritativeSession C T) : Prop where
  sessionId : s'.sessionId = s.sessionId
  ackSeqNum : s'.ackSeqNum = s.ackSeqNum
  expectedClientSeq : s'.expectedClientSeq = s.expectedClientSeq
  outOfOrderPackets : s'.outOfOrderPackets = s.outOfOrderPackets
  clientAckSeq : s'.clientAckSeq = s.clientAckSeq
  codec : s'.codec = s.codec
  currentClientAddr : s'.currentClientAddr = s.currentClientAddr
  lastRecvTime : s'.lastRecvTime = s.lastRecvTime
  pty : s'.pty = s.pty

theorem SameWindow.refl (s : AuthoritativeSession C T) : SameWindow s s :=
  ⟨rfl, rfl, rfl, rfl, rfl, rfl, rfl, rfl, rfl⟩

theorem SameWindow.trans {s s' s'' : AuthoritativeSession C T} (h : SameWindow s s')
    (h' : SameWindow s' s'') : SameWindow s s'' :=
  ⟨h'.1.trans h.1, h'.2.trans h.2, h'.3.trans h.3, h'.4.trans h.4, h'.5.trans h.5, h'.6.trans h.6,
    h'.7.trans h.7, h'.8.trans h.8, h'.9.trans h.9⟩

/-- What the processing loop leaves alone; it may only take new numbers for its replies. -/
structure Processed (s s' : AuthoritativeSession C T) : Prop where
  sessionId : s'.sessionId = s.sessionId
  seqNum : s.seqNum ≤ s'.seqNum
  ackSeqNum : s'.ackSeqNum = s.ackSeqNum
  expectedClientSeq : s'.expectedClientSeq = s.expectedClientSeq
  outOfOrderPackets : s'.outOfOrderPackets = s.outOfOrderPackets
  clientAckSeq : s'.clientAckSeq = s.clientAckSeq
  lastSentAckSeq : s'.lastSentAckSeq = s.lastSentAckSeq
  stateHistory : s'.stateHistory = s.stateHistory
  codec : s'.codec = s.codec
  currentClientAddr : s'.currentClientAddr = s.currentClientAddr
  lastRecvTime : s'.lastRecvTime = s.lastRecvTime
  lastSyncTime : s'.lastSyncTime = s.lastSyncTime

theorem Processed.refl (s : AuthoritativeSession C T) : Processed s s :=
  ⟨rfl, le_rfl, rfl, rfl, rfl, rfl, rfl, rfl, rfl, rfl, rfl, rfl⟩

theorem Processed.trans {s s' s'' : AuthoritativeSession C T} (h : Processed s s')
    (h' : Processed s' s'') : Processed s s'' :=
  ⟨h'.1.trans h.1, h.2.trans h'.2, h'.3.trans h.3, h'.4.trans h.4, h'.5.trans h.5, h'.6.trans h.6,
    h'.7.trans h.7, h'.8.trans h.8, h'.9.trans h.9, h'.10.trans h.10, h'.11.trans h.11,
    h'.12.trans h.12⟩

/-- The numbers handed to the processing loop are those the window moves over. -/
theorem packetsToProcess_numbers (s : AuthoritativeSession C T) (payload : ClientPayload) (ack : ℕ) :
    (s.packetsToProcess payload).map Prod.fst =
      List.range' s.expectedClientSeq ((s.advance ack).expectedClientSeq - s.expectedClientSeq) ∧
    s.expectedClientSeq < (s.advance ack).expectedClientSeq := by
  obtain ⟨h₁, h₂⟩ :=
    drain_numbers s.outOfOrderPackets.size s.outOfOrderPackets (s.expectedClientSeq + 1)
  have hexp : (s.advance ack).expectedClientSeq = s.expectedClientSeq + 1 +
      (drain s.outOfOrderPackets.size s.outOfOrderPackets (s.expectedClientSeq + 1)).1.length := h₂
  refine ⟨?_, by omega⟩
  rw [hexp, show ∀ n k : ℕ, n + 1 + k - n = k + 1 by omega, List.range'_succ, ← h₁]
  rfl

/-- The end of a flood resets one counter. -/
theorem calmed_frame (s : AuthoritativeSession C T) (now : Instant) :
    ∃ ptyBytesAcc, s.calmed now = { s with ptyBytesAcc } := by
  unfold calmed
  split
  · exact ⟨0, rfl⟩
  · exact ⟨s.ptyBytesAcc, rfl⟩

theorem calmed_sameWindow (s : AuthoritativeSession C T) (now : Instant) : SameWindow s (s.calmed now) := by
  obtain ⟨_, hcalm⟩ := calmed_frame s now
  rw [hcalm]
  exact ⟨rfl, rfl, rfl, rfl, rfl, rfl, rfl, rfl, rfl⟩

theorem calmed_same (s : AuthoritativeSession C T) (now : Instant) :
    (s.calmed now).termState = s.termState ∧ (s.calmed now).stateHistory = s.stateHistory ∧
      (s.calmed now).pushed = s.pushed ∧ (s.calmed now).dirty = s.dirty ∧
      (s.calmed now).lastSentAckSeq = s.lastSentAckSeq := by
  obtain ⟨_, hcalm⟩ := calmed_frame s now
  rw [hcalm]
  exact ⟨rfl, rfl, rfl, rfl, rfl⟩

variable [TerminalState T]

theorem syncGrid_sameWindow (s : AuthoritativeSession C T) (now : Instant) (echo : Bool) :
    SameWindow s (s.syncGrid now echo).1 := by
  unfold syncGrid
  split
  · exact ⟨rfl, rfl, rfl, rfl, rfl, rfl, rfl, rfl, rfl⟩
  · split <;> exact ⟨rfl, rfl, rfl, rfl, rfl, rfl, rfl, rfl, rfl⟩

theorem checkSync_sameWindow (s : AuthoritativeSession C T) (now : Instant) (echo : Bool) :
    SameWindow s (s.checkSync now echo).1 := by
  unfold checkSync
  split
  · exact .refl s
  · split
    · exact calmed_sameWindow s now
    · exact (calmed_sameWindow s now).trans (syncGrid_sameWindow _ now echo)

/-- INVERSION: all that `check_sync` can do. -/
theorem checkSync_cases (s : AuthoritativeSession C T) (now : Instant) (echo : Bool) :
    s.checkSync now echo = (s, []) ∨
    (s.calmed now).upToDate = true ∧ s.checkSync now echo = (s.calmed now, []) ∨
    (s.calmed now).upToDate = false ∧ ∃ t,
      ((∃ e, TerminalState.updateAndGetState s.termState = (t, .error e) ∧
        s.checkSync now echo = ({ s.calmed now with termState := t }, [])) ∨
      (∃ g, TerminalState.updateAndGetState s.termState = (t, .ok g) ∧
        ((isIdentical s.stateHistory g = true ∧ s.ackSeqNum ≤ s.lastSentAckSeq ∧
          s.checkSync now echo = ({ s.calmed now with termState := t, dirty := false }, [])) ∨
        (s.checkSync now echo = queueFrame { s.calmed now with termState := t } g now echo)))) := by
  obtain ⟨hterm, hhist, -, -, hlast⟩ := calmed_same s now
  have hack := (calmed_sameWindow s now).ackSeqNum
  unfold checkSync
  split
  · exact .inl rfl
  · split
    · rename_i hup
      exact .inr (.inl ⟨hup, rfl⟩)
    · rename_i hup
      refine .inr (.inr ⟨Bool.not_eq_true _ ▸ hup, ?_⟩)
      unfold syncGrid
      rw [hterm]
      split
      · rename_i t e he
        exact ⟨t, .inl ⟨e, he, rfl⟩⟩
      · rename_i t g hg
        refine ⟨t, .inr ⟨g, hg, ?_⟩⟩
        split
        · rename_i hid
          rw [hhist, hack, hlast, Bool.and_eq_true, Bool.not_eq_true', decide_eq_false_iff_not,
            Nat.not_lt] at hid
          exact .inl ⟨hid.1, hid.2, rfl⟩
        · exact .inr rfl

/-! ### The processing loop -/

variable [PacketCodec C]

/-- One turn of the loop answers a keepalive, or concerns the terminal and what is to be sent again. -/
theorem process_inv {s s' : AuthoritativeSession C T} {payload : ClientPayload}
    {r : Except Error (List (SessionAction C))} (h : s.process payload = some (s', r)) :
    (∃ res, s.sealNext s.ackSeqNum .keepAlive = (s', res) ∧
      r = res.map fun datagrams => sendAll datagrams s.currentClientAddr) ∨
    ∃ pty termState dirty, s' = { s with pty, termState, dirty } ∧
      r = .ok (resendOf payload s.currentClientAddr) ∧
      (dirty = false → s.dirty = false ∧ termState = s.termState) := by
  cases payload with
  | keepAlive =>
    simp only [process] at h
    split at h
    · rename_i heq
      cases h
      exact .inl ⟨_, heq, rfl⟩
    · rename_i heq
      obtain ⟨rfl, -⟩ := Prod.mk.inj heq
      cases h
      exact .inl ⟨_, heq, rfl⟩
  | resize cols rows => cases h; exact .inr ⟨_, _, true, rfl, rfl, nofun⟩
  | handshake _ _ _ => cases h
  | _ => cases h; exact .inr ⟨_, _, _, rfl, rfl, fun hd => ⟨hd, rfl⟩⟩

theorem process_processed {s s' : AuthoritativeSession C T} {payload : ClientPayload}
    {r : Except Error (List (SessionAction C))} (h : s.process payload = some (s', r)) :
    Processed s s' := by
  rcases process_inv h with ⟨res, heq, -⟩ | ⟨_, _, _, rfl, -⟩
  · obtain ⟨rfl, -⟩ := Prod.mk.inj heq
    exact ⟨rfl, Nat.le_succ _, rfl, rfl, rfl, rfl, rfl, rfl, rfl, rfl, rfl, rfl⟩
  · exact ⟨rfl, le_rfl, rfl, rfl, rfl, rfl, rfl, rfl, rfl, rfl, rfl, rfl⟩

/-- One turn of the loop fails, or its actions are kept and the loop goes on. -/
theorem processAll_cons_inv {p : ℕ × ClientPayload} {rest : List (ℕ × ClientPayload)}
    {s s' : AuthoritativeSession C T} {actions : List (SessionAction C)}
    {r : Except Error (List (SessionAction C))} (h : processAll (p :: rest) s actions = some (s', r)) :
    (∃ e, s.process p.2 = some (s', .error e) ∧ r = .error e) ∨
    ∃ t more, s.process p.2 = some (t, .ok more) ∧
      processAll rest t (actions ++ more) = some (s', r) := by
  unfold processAll at h
  split at h
  · cases h
  · rename_i e heq
    cases h
    exact .inl ⟨e, heq, rfl⟩
  · rename_i t more heq
    exact .inr ⟨t, more, heq, h⟩

/-- STEP TO RUN: what one turn of the loop preserves, the whole loop preserves. -/
theorem processAll_induct {R : AuthoritativeSession C T → AuthoritativeSession C T → Prop}
    (hrefl : ∀ s, R s s) (htrans : ∀ s s' s'', R s s' → R s' s'' → R s s'')
    (hstep : ∀ (s s' : AuthoritativeSession C T) payload r, s.process payload = some (s', r) → R s s')
    {packets : List (ℕ × ClientPayload)} {s s' : AuthoritativeSession C T}
    {actions : List (SessionAction C)} {r : Except Error (List (SessionAction C))}
    (h : processAll packets s actions = some (s', r)) : R s s' := by
  induction packets generalizing s actions with
  | nil => cases h; exact hrefl _
  | cons p rest ih =>
    rcases processAll_cons_inv h with ⟨_, hp, -⟩ | ⟨_, _, hp, hrest⟩
    · exact hstep _ _ _ _ hp
    · exact htrans _ _ _ (hstep _ _ _ _ hp) (ih hrest)

theorem processAll_processed {packets : List (ℕ × ClientPayload)} {s s' : AuthoritativeSession C T}
    {actions : List (SessionAction C)} {r : Except Error (List (SessionAction C))}
    (h : processAll packets s actions = some (s', r)) : Processed s s' :=
  processAll_induct Processed.refl (fun _ _ _ => Processed.trans)
    (fun _ _ _ _ => process_processed) h

/-! ### Datagrams -/

/-- INVERSION: a packet of the session is transient, a duplicate, early or in order. -/
theorem feedHeard_cases {s s' : AuthoritativeSession C T} {w : EncryptedClientPacket}
    {p : ClientPayload} {now : Instant} {echo : Bool} {r : Except Error (List (SessionAction C))}
    (h : s.feedHeard w p now echo = some (s', r)) :
    (isTransient w.seqNum p = true ∧ s.feedTransient w.ackSeqNum p now echo = (s', r)) ∨
    (isTransient w.seqNum p = false ∧
      ((w.seqNum < s.expectedClientSeq ∧ s' = s ∧ r = .ok []) ∨
      (s.expectedClientSeq < w.seqNum ∧ r = .ok [] ∧ s' = s.buffer w.seqNum p) ∨
      (w.seqNum = s.expectedClientSeq ∧ s.feedInOrder w.ackSeqNum p now echo = some (s', r)))) := by
  unfold feedHeard at h
  split at h
  · rename_i ht
    exact .inl ⟨ht, Option.some.inj h⟩
  · rename_i ht
    refine .inr ⟨Bool.not_eq_true _ ▸ ht, ?_⟩
    split at h
    · rename_i hlt
      cases h
      exact .inl ⟨hlt, rfl, rfl⟩
    · split at h
      · rename_i hgt
        cases h
        exact .inr (.inl ⟨hgt, rfl, rfl⟩)
      · rename_i h₁ h₂
        exact .inr (.inr ⟨Nat.le_antisymm (Nat.not_lt.mp h₂) (Nat.not_lt.mp h₁), h⟩)

/-- INVERSION: all that a datagram can do to the session. -/
theorem feedPacket_cases {s s' : AuthoritativeSession C T} {bytes : Bytes} {src : SocketAddr}
    {now : Instant} {echo : Bool} {r : Except Error (List (SessionAction C))}
    (h : s.feedPacket bytes src now echo = some (s', r)) :
    -- it does not open, or is of another session
    (s' = s ∧ r = .ok [] ∧ ∀ w p st, PacketCodec.openClient s.codec bytes = .ok (w, p, st) →
      w.sessionId ≠ 0 ∧ w.sessionId ≠ s.sessionId) ∨
    ∃ w p st, PacketCodec.openClient s.codec bytes = .ok (w, p, st) ∧
      ((w.sessionId = 0 ∧ s.feedHandshake w.seqNum src now echo = (s', r)) ∨
      (w.sessionId ≠ 0 ∧ w.sessionId = s.sessionId ∧
        ((isTransient w.seqNum p = true ∧
          (s.heard src now).feedTransient w.ackSeqNum p now echo = (s', r)) ∨
        (isTransient w.seqNum p = false ∧
          ((w.seqNum < s.expectedClientSeq ∧ s' = s.heard src now ∧ r = .ok []) ∨
          (s.expectedClientSeq < w.seqNum ∧ r = .ok [] ∧ s' = (s.heard src now).buffer w.seqNum p) ∨
          (w.seqNum = s.expectedClientSeq ∧
            (s.heard src now).feedInOrder w.ackSeqNum p now echo = some (s', r))))))) := by
  unfold feedPacket at h
  split at h
  · rename_i hopen
    cases h
    exact .inl ⟨rfl, rfl, by simp [hopen]⟩
  · rename_i w p st hopen
    split at h
    · rename_i h0
      exact .inr ⟨w, p, st, hopen, .inl ⟨h0, Option.some.inj h⟩⟩
    · rename_i h0
      split at h
      · rename_i hsid
        cases h
        refine .inl ⟨rfl, rfl, fun w' p' st' h' => ?_⟩
        rw [hopen] at h'
        cases h'
        exact ⟨h0, hsid⟩
      · rename_i hsid
        exact .inr ⟨w, p, st, hopen, .inr ⟨h0, not_not.mp hsid, feedHeard_cases h⟩⟩

/-- A packet of this session is heard first. -/
theorem feedPacket_eq_feedHeard {s : AuthoritativeSession C T} {bytes : Bytes}
    {w : EncryptedClientPacket} {p : ClientPayload} {st : CodecStats}
    (hopen : PacketCodec.openClient s.codec bytes = .ok (w, p, st)) (h0 : w.sessionId ≠ 0)
    (hsid : w.sessionId = s.sessionId) (src : SocketAddr) (now : Instant) (echo : Bool) :
    s.feedPacket bytes src now echo = (s.heard src now).feedHeard w p now echo := by
  simp only [feedPacket, hopen]
  rw [if_neg h0, if_neg (not_not.mpr hsid)]

theorem feedHandshake_cases {s s' : AuthoritativeSession C T} {seqNum : ℕ} {src : SocketAddr}
    {now : Instant} {echo : Bool} {r : Except Error (List (SessionAction C))}
    (h : s.feedHandshake seqNum src now echo = (s', r)) :
    (s.ignoresHandshake now = true ∧ s' = s ∧ r = .ok []) ∨
    (s.ignoresHandshake now = false ∧ ∃ t,
      t = ((s.resetFor seqNum src now).sealNext seqNum (.handshakeAck s.sessionId)).1 ∧
      ((∃ e, PacketCodec.sealServer s.codec (s.seqNum + 1) seqNum (.handshakeAck s.sessionId) =
          .error e ∧ s' = t ∧ r = .error e) ∨
      (∃ datagrams,
        PacketCodec.sealServer s.codec (s.seqNum + 1) seqNum (.handshakeAck s.sessionId) =
          .ok datagrams ∧
        s' = (t.checkSync now echo).1 ∧
        r = .ok (sendAll datagrams src ++ (t.checkSync now echo).2)))) := by
  unfold feedHandshake at h
  split at h
  · rename_i hi
    cases h
    exact .inl ⟨hi, rfl, rfl⟩
  · rename_i hi
    refine .inr ⟨Bool.not_eq_true _ ▸ hi, _, rfl, ?_⟩
    split at h
    · rename_i t e he
      obtain ⟨rfl, hseal⟩ := Prod.mk.inj he
      cases h
      exact .inl ⟨e, hseal, rfl, rfl⟩
    · rename_i t datagrams hd
      obtain ⟨rfl, hseal⟩ := Prod.mk.inj hd
      cases h
      exact .inr ⟨datagrams, hseal, rfl, rfl⟩

theorem feedInOrder_cases {s s' : AuthoritativeSession C T} {ack : ℕ} {payload : ClientPayload}
    {now : Instant} {echo : Bool} {r : Except Error (List (SessionAction C))}
    (h : s.feedInOrder ack payload now echo = some (s', r)) :
    (∃ e, processAll (s.packetsToProcess payload) (s.advance ack) [] = some (s', .error e) ∧
      r = .error e) ∨
    (∃ t actions, processAll (s.packetsToProcess payload) (s.advance ack) [] = some (t, .ok actions) ∧
      s' = (t.checkSync now echo).1 ∧ r = .ok (actions ++ (t.checkSync now echo).2)) := by
  unfold feedInOrder at h
  split at h
  · cases h
  · rename_i e he
    cases h
    exact .inl ⟨_, he, rfl⟩
  · rename_i t actions ht
    cases h
    exact .inr ⟨t, actions, ht, rfl, rfl⟩

/-- The codec and the session id never change. -/
theorem feedPacket_static {s s' : AuthoritativeSession C T} {bytes : Bytes} {src : SocketAddr}
    {now : Instant} {echo : Bool} {r : Except Error (List (SessionAction C))}
    (h : s.feedPacket bytes src now echo = some (s', r)) :
    s'.codec = s.codec ∧ s'.sessionId = s.sessionId := by
  have hsync : ∀ t : AuthoritativeSession C T, (t.checkSync now echo).1.codec = t.codec ∧
      (t.checkSync now echo).1.sessionId = t.sessionId := fun t =>
    ⟨(checkSync_sameWindow t now echo).codec, (checkSync_sameWindow t now echo).sessionId⟩
  rcases feedPacket_cases h with ⟨rfl, -⟩ | ⟨w, p, st, -, ⟨-, hs⟩ | ⟨-, -, hcase⟩⟩
  · exact ⟨rfl, rfl⟩
  · rcases feedHandshake_cases hs with ⟨-, rfl, -⟩ | ⟨-, t, rfl, ⟨e, -, rfl, -⟩ | ⟨ds, -, rfl, -⟩⟩
    · exact ⟨rfl, rfl⟩
    · exact ⟨rfl, rfl⟩
    · exact hsync _
  · rcases hcase with ⟨-, ht⟩ | ⟨-, ⟨-, rfl, -⟩ | ⟨-, -, rfl⟩ | ⟨-, ho⟩⟩
    · cases ht
      exact hsync _
    · exact ⟨rfl, rfl⟩
    · exact ⟨rfl, rfl⟩
    · rcases feedInOrder_cases ho with ⟨e, hp, -⟩ | ⟨t, actions, hp, rfl, -⟩
      · exact ⟨(processAll_processed hp).codec, (processAll_processed hp).sessionId⟩
      · exact ⟨(hsync t).1.trans (processAll_processed hp).codec,
          (hsync t).2.trans (processAll_processed hp).sessionId⟩

end AuthoritativeSession

/-! ### Runs of a session alone -/

variable {C T : Type} [PacketCodec C] [TerminalState T]

/-- What the world can do to a session. -/
inductive SessionEvent where
  | packet (bytes : Bytes) (src : SocketAddr) (now : Instant) (echo : Bool)
  | ptyBytes (data : Bytes) (now : Instant)
  | tick (now : Instant) (echo : Bool)

/-- The session after an event; its actions are the adapter's business. -/
def AuthoritativeSession.step (s : AuthoritativeSession C T) :
    SessionEvent → Option (AuthoritativeSession C T)
  | .packet bytes src now echo => (s.feedPacket bytes src now echo).map Prod.fst
  | .ptyBytes data now => some (s.onPtyBytes data now)
  | .tick now echo => some (s.onTick now echo).1

end Rumsh.Server
