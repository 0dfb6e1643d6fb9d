import Rumsh.Server.Delivery

/-! Replay: what a session applies across handshakes.

    A handshake that gets past the guard sets the window to its own number, whatever the window was. The
    numbers a session applies are its window's, so they repeat exactly when a handshake sets the window
    back. -/

namespace Rumsh.Server
open Std Rumsh.Schemes Rumsh.Protocol

namespace AuthoritativeSession
variable {C T : Type} [PacketCodec C] [TerminalState T]

/-! ### What is applied -/

/-- The packets the processing loop gets through. -/
def processedOf : List (ℕ × ClientPayload) → AuthoritativeSession C T → List (ℕ × ClientPayload)
  | [], _ => []
  | packet :: rest, s =>
    match s.process packet.2 with
    | some (s', .ok _) => packet :: processedOf rest s'
    | _ => []

/-- The numbered payloads an event applies to the PTY and the terminal. -/
def applies (s : AuthoritativeSession C T) : SessionEvent → List (ℕ × ClientPayload)
  | .packet bytes src now _ =>
    match PacketCodec.openClient s.codec bytes with
    | .ok (w, p, _) =>
      if w.sessionId ≠ 0 ∧ w.sessionId = s.sessionId ∧ isTransient w.seqNum p = false ∧
          w.seqNum = s.expectedClientSeq then
        processedOf (s.packetsToProcess p) ((s.heard src now).advance w.ackSeqNum)
      else []
    | .error _ => []
  | _ => []

/-- All that a run applies, in order. -/
def appliedAlong : AuthoritativeSession C T → List SessionEvent → List (ℕ × ClientPayload)
  | _, [] => []
  | s, ev :: rest => s.applies ev ++ (s.step ev).elim [] fun s' => appliedAlong s' rest

/-- A handshake that is not ignored and whose number lies before the window. -/
def rewinds (s : AuthoritativeSession C T) : SessionEvent → Bool
  | .packet bytes _ now _ =>
    match PacketCodec.openClient s.codec bytes with
    | .ok (w, _, _) =>
      w.sessionId == 0 && !s.ignoresHandshake now && decide (w.seqNum + 1 < s.expectedClientSeq)
    | .error _ => false
  | _ => false

theorem processedOf_sublist (packets : List (ℕ × ClientPayload)) (s : AuthoritativeSession C T) :
    (processedOf packets s).Sublist packets := by
  induction packets generalizing s with
  | nil => exact .slnil
  | cons p rest ih =>
    unfold processedOf
    split
    · exact (ih _).cons_cons p
    · exact List.nil_sublist _

/-! ### The window along a run -/

variable {s s' : AuthoritativeSession C T} {ev : SessionEvent}

theorem expectedClientSeq_feedInOrder {ack : ℕ} {payload : ClientPayload} {now : Instant} {echo : Bool}
    {r : Except Error (List (SessionAction C))}
    (h : s.feedInOrder ack payload now echo = some (s', r)) :
    s'.expectedClientSeq = (s.advance ack).expectedClientSeq := by
  rcases feedInOrder_cases h with ⟨e, hp, -⟩ | ⟨t, actions, hp, rfl, -⟩
  · exact (processAll_processed hp).expectedClientSeq
  · rw [(checkSync_sameWindow t now echo).expectedClientSeq]
    exact (processAll_processed hp).expectedClientSeq

/-- STEP: the window moves back exactly at a handshake that lies before it. -/
theorem step_expectedClientSeq (h : s.step ev = some s') :
    s.expectedClientSeq ≤ s'.expectedClientSeq ↔ s.rewinds ev = false := by
  cases ev with
  | ptyBytes data now => cases h; simp [rewinds, onPtyBytes]
  | tick now echo =>
    cases h
    simp [rewinds, onTick, (checkSync_sameWindow s now echo).expectedClientSeq]
  | packet bytes src now echo =>
    obtain ⟨⟨t, r⟩, hfeed, rfl⟩ := Option.map_eq_some_iff.mp h
    rcases feedPacket_cases hfeed with ⟨rfl, -, hnot⟩ | ⟨w, p, st, hopen, hcase⟩
    · simp only [Nat.le_refl, rewinds, true_iff]
      split
      · rename_i w p st hopen
        simp [(hnot w p st hopen).1]
      · rfl
    · simp only [rewinds, hopen]
      rcases hcase with ⟨h0, hhs⟩ | ⟨h0, hsid, hcase⟩
      · rcases feedHandshake_cases hhs with ⟨hi, rfl, -⟩ | ⟨hi, u, rfl, hreset⟩
        · simp [hi]
        · have hexp : t.expectedClientSeq = w.seqNum + 1 := by
            rcases hreset with ⟨e, -, rfl, -⟩ | ⟨ds, -, rfl, -⟩
            · rfl
            · rw [(checkSync_sameWindow _ now echo).expectedClientSeq]
              rfl
          simp [h0, hi, hexp]
      · have hle : s.expectedClientSeq ≤ t.expectedClientSeq := by
          rcases hcase with ⟨-, ht⟩ | ⟨-, ⟨-, rfl, -⟩ | ⟨-, -, rfl⟩ | ⟨-, ho⟩⟩
          · cases ht
            rw [(checkSync_sameWindow _ now echo).expectedClientSeq]
            exact Nat.le_refl _
          · exact Nat.le_refl _
          · exact Nat.le_refl _
          · rw [expectedClientSeq_feedInOrder ho]
            exact (packetsToProcess_numbers (s.heard src now) p w.ackSeqNum).2.le
        simp [h0, hle]

/-- A handshake never panics the session. -/
theorem step_isSome_of_rewinds (h : s.rewinds ev = true) : ∃ s', s.step ev = some s' := by
  cases ev with
  | ptyBytes data now => cases h
  | tick now echo => cases h
  | packet bytes src now echo =>
    simp only [rewinds] at h
    split at h
    · rename_i w p st hopen
      simp only [Bool.and_eq_true, beq_iff_eq] at h
      exact ⟨(s.feedHandshake w.seqNum src now echo).1, by
        simp [AuthoritativeSession.step, feedPacket, hopen, h.1.1]⟩
    · cases h

/-- STEP: the numbers an event applies are among those the window moves over. -/
theorem applies_sublist (s : AuthoritativeSession C T) (ev : SessionEvent) :
    ∃ k, ((s.applies ev).map Prod.fst).Sublist (List.range' s.expectedClientSeq k) ∧
      ∀ s', s.step ev = some s' → s.rewinds ev = false →
        s.expectedClientSeq + k ≤ s'.expectedClientSeq := by
  have hnone : ∃ k, (([] : List (ℕ × ClientPayload)).map Prod.fst).Sublist
      (List.range' s.expectedClientSeq k) ∧ ∀ s', s.step ev = some s' → s.rewinds ev = false →
        s.expectedClientSeq + k ≤ s'.expectedClientSeq :=
    ⟨0, List.nil_sublist _, fun s' h hr => (step_expectedClientSeq h).mpr hr⟩
  cases ev with
  | ptyBytes data now => exact hnone
  | tick now echo => exact hnone
  | packet bytes src now echo =>
    simp only [applies]
    split
    · rename_i w p st hopen
      split
      · rename_i hc
        obtain ⟨h0, hsid, ht, hseq⟩ := hc
        obtain ⟨hnum, hlt⟩ := packetsToProcess_numbers (s.heard src now) p w.ackSeqNum
        refine ⟨_, hnum ▸ (processedOf_sublist _ _).map Prod.fst, fun s' hs' _ => ?_⟩
        obtain ⟨⟨t, r⟩, hfeed, rfl⟩ := Option.map_eq_some_iff.mp hs'
        rw [feedPacket_eq_feedHeard hopen h0 hsid, feedHeard, if_neg (by simp [ht]),
          if_neg (by simp [heard, hseq]), if_neg (by simp [heard, hseq])] at hfeed
        rw [expectedClientSeq_feedInOrder hfeed]
        have : (s.heard src now).expectedClientSeq = s.expectedClientSeq := rfl
        omega
      · exact hnone
    · exact hnone

/-- RUN: as long as no handshake rewinds the window, no number is applied twice. -/
theorem appliedAlong_nodup (events : List SessionEvent)
    (h : StepsMeet AuthoritativeSession.step (fun s ev => s.rewinds ev = false) s events) :
    ((appliedAlong s events).map Prod.fst).Nodup ∧
      ∀ n ∈ (appliedAlong s events).map Prod.fst, s.expectedClientSeq ≤ n := by
  induction events generalizing s with
  | nil => simp [appliedAlong]
  | cons ev rest ih =>
    obtain ⟨hrew, hrest⟩ := h
    obtain ⟨k, hsub, hmove⟩ := applies_sublist s ev
    have hmem : ∀ n ∈ (s.applies ev).map Prod.fst,
        s.expectedClientSeq ≤ n ∧ n < s.expectedClientSeq + k := by
      intro n hn
      exact List.mem_range'_1.mp (hsub.subset hn)
    cases hs : s.step ev with
    | none =>
      simp only [appliedAlong, hs, Option.elim_none, List.append_nil]
      exact ⟨hsub.nodup List.nodup_range', fun n hn => (hmem n hn).1⟩
    | some s' =>
      obtain ⟨ihn, ihle⟩ := ih (hrest s' hs)
      have hle := hmove s' hs hrew
      simp only [appliedAlong, hs, Option.elim_some, List.map_append]
      refine ⟨List.nodup_append.mpr ⟨hsub.nodup List.nodup_range', ihn, ?_⟩, fun n hn => ?_⟩
      · rintro n hn m hm rfl
        have := ihle n hm
        have := hmem n hn
        omega
      · rcases List.mem_append.mp hn with hn | hn
        · exact (hmem n hn).1
        · have := ihle n hn
          omega

/-- REPLAY SAFETY: over any run of a session, whatever it is handed, the window never moves back and no
    number is applied twice, exactly when no handshake that gets past the guard lies before the
    window. -/
theorem replay_safe_iff (s₀ : AuthoritativeSession C T) (events : List SessionEvent) :
    (StepsMeet AuthoritativeSession.step
        (fun s ev => ∀ s', s.step ev = some s' → s.expectedClientSeq ≤ s'.expectedClientSeq)
        s₀ events ∧
      ((appliedAlong s₀ events).map Prod.fst).Nodup) ↔
    StepsMeet AuthoritativeSession.step (fun s ev => s.rewinds ev = false) s₀ events := by
  constructor
  · rintro ⟨h, -⟩
    refine h.imp fun s ev hle => ?_
    by_contra hr
    obtain ⟨s', hs'⟩ := step_isSome_of_rewinds (Bool.not_eq_false _ ▸ hr)
    exact hr ((step_expectedClientSeq hs').mp (hle s' hs'))
  · intro h
    exact ⟨h.imp fun s ev hr s' hs' => (step_expectedClientSeq hs').mpr hr,
      (appliedAlong_nodup events h).1⟩

/-- The client's own handshake, delivered again after 6 s of silence, rewinds the window, and the
    keystroke it sent comes out of the PTY twice. -/
theorem handshake_replayed_twice :
    ∃ (s₀ : AuthoritativeSession (ChaChaCodec Bincode.crates) TextTerminal) (handshake keys : Bytes),
      let addr : SocketAddr := ⟨0, 0⟩
      let codec := ChaChaCodec.new Bincode.crates (Vector.replicate 32 0) (2 ^ 32)
      let events := [SessionEvent.packet keys addr 1 false,
        .packet handshake addr (secs 6) false, .packet keys addr (secs 6 + 1) false]
      new (2 ^ 32) codec 1 addr 8 2 0 = .ok s₀ ∧
      codec.sealClient 0 1 0 (.handshake 1 8 2) = .ok handshake ∧
      codec.sealClient (2 ^ 32) 2 0 (.keystrokes [0x61]) = .ok keys ∧
      appliedAlong s₀ events = [(2, .keystrokes [0x61]), (2, .keystrokes [0x61])] ∧
      ¬ (StepsMeet AuthoritativeSession.step
          (fun s ev => ∀ s', s.step ev = some s' → s.expectedClientSeq ≤ s'.expectedClientSeq)
          s₀ events ∧
        ((appliedAlong s₀ events).map Prod.fst).Nodup) := by
  refine ⟨_, _, _, rfl, rfl, rfl, ?_, ?_⟩
  · decide +kernel
  · rintro ⟨-, h⟩
    revert h
    decide +kernel

end AuthoritativeSession

end Rumsh.Server
