import Rumsh.Server.OwedAcks

/-! What a client can make the session do that its author thought unreachable.

    The processing loop has no case for a handshake, which comes under session id 0; but nothing stops a
    client that has the key from sealing one under the session's own id. And the handshake that does
    come under id 0 sets the window behind its number, of which there may be none. Nothing else panics:
    a number without the high bit leaves room for the window to move over it. -/

namespace Rumsh.Server
open Std Rumsh.Schemes Rumsh.Protocol

namespace AuthoritativeSession
variable {C T : Type} [PacketCodec C] [TerminalState T]

/-! ### The processing loop -/

/-- The loop comes to a handshake: the replies to the keepalives before it seal. -/
def reachesHandshake (codec : C) (ack : ℕ) : ℕ → List (ℕ × ClientPayload) → Bool
  | _, [] => false
  | _, (_, .handshake _ _ _) :: _ => true
  | n, (_, .keepAlive) :: rest =>
    (PacketCodec.sealServer codec (n + 1) ack .keepAlive).isOk &&
      reachesHandshake codec ack (n + 1) rest
  | n, (_, .ack) :: rest => reachesHandshake codec ack n rest
  | n, (_, .keystrokes _) :: rest => reachesHandshake codec ack n rest
  | n, (_, .resize _ _) :: rest => reachesHandshake codec ack n rest
  | n, (_, .fragmentNack _ _) :: rest => reachesHandshake codec ack n rest

variable {s s' : AuthoritativeSession C T}

/-- The loop panics exactly at a handshake. -/
theorem processAll_eq_none_iff (packets : List (ℕ × ClientPayload)) (s : AuthoritativeSession C T)
    (actions : List (SessionAction C)) :
    processAll packets s actions = none ↔
      reachesHandshake s.codec s.ackSeqNum s.seqNum packets = true := by
  induction packets generalizing s actions with
  | nil => simp [processAll, reachesHandshake]
  | cons e rest ih =>
    obtain ⟨n, payload⟩ := e
    cases payload with
    | handshake _ _ _ => simp [processAll, process, reachesHandshake]
    | keepAlive =>
      simp only [processAll, process, sealNext, reachesHandshake, Bool.and_eq_true]
      cases PacketCodec.sealServer s.codec (s.seqNum + 1) s.ackSeqNum .keepAlive with
      | error e => simp [Except.isOk, Except.toBool]
      | ok datagrams =>
        simp only [Except.isOk, Except.toBool, true_and]
        exact ih _ _
    | ack => exact ih _ _
    | keystrokes keys => exact ih _ _
    | resize cols rows => exact ih _ _
    | fragmentNack frame mask => exact ih _ _

/-- Each turn of the loop takes at most one number. -/
theorem seqNum_processAll {packets : List (ℕ × ClientPayload)} {actions : List (SessionAction C)}
    {r : Except Error (List (SessionAction C))} (h : processAll packets s actions = some (s', r)) :
    s'.seqNum ≤ s.seqNum + packets.length := by
  have hone : ∀ {s s' : AuthoritativeSession C T} {payload : ClientPayload}
      {r : Except Error (List (SessionAction C))}, s.process payload = some (s', r) →
      s'.seqNum ≤ s.seqNum + 1 := by
    intro s s' payload r h
    rcases process_inv h with ⟨res, heq, -⟩ | ⟨_, _, _, rfl, -⟩
    · obtain ⟨rfl, -⟩ := Prod.mk.inj heq
      exact le_rfl
    · exact Nat.le_succ _
  induction packets generalizing s actions with
  | nil =>
    cases h
    exact Nat.le_refl _
  | cons e rest ih =>
    rw [List.length_cons]
    rcases processAll_cons_inv h with ⟨_, hp, -⟩ | ⟨_, _, hp, hrest⟩
    · have hle := hone hp
      omega
    · have hle := hone hp
      have hmore := ih hrest
      omega

omit [PacketCodec C] in
/-- The frame scheduler takes at most one. -/
theorem seqNum_checkSync (s : AuthoritativeSession C T) (now : Instant) (echo : Bool) :
    (s.checkSync now echo).1.seqNum ≤ s.seqNum + 1 := by
  have hcalm : (s.calmed now).seqNum = s.seqNum := by
    obtain ⟨_, hcalm⟩ := calmed_frame s now
    rw [hcalm]
  rcases checkSync_cases s now echo with hs | ⟨-, hs⟩ | ⟨-, t, ⟨e, -, hs⟩ | ⟨g, -, ⟨-, -, hs⟩ | hs⟩⟩ <;>
    rw [hs]
  · exact Nat.le_succ _
  · exact hcalm.le.trans (Nat.le_succ _)
  · exact hcalm.le.trans (Nat.le_succ _)
  · exact hcalm.le.trans (Nat.le_succ _)
  · exact (congrArg (· + 1) hcalm).le

/-! ### One event -/

/-- The packet is the one expected, and a handshake is among those it lets through. -/
def hitsUnreachable (s : AuthoritativeSession C T) : SessionEvent → Bool
  | .packet bytes _ _ _ =>
    match PacketCodec.openClient s.codec bytes with
    | .ok (w, p, _) => w.sessionId ≠ 0 && w.sessionId == s.sessionId && !isTransient w.seqNum p &&
        w.seqNum == s.expectedClientSeq && reachesHandshake s.codec (s.advance w.ackSeqNum).ackSeqNum
          s.seqNum (s.packetsToProcess p)
    | .error _ => false
  | _ => false

/-- The number that came is a u64, and the session's own counter has room for a reply to every packet it
    holds and for two more. -/
def inRange (s : AuthoritativeSession C T) (ev : SessionEvent) : Bool :=
  decide (s.seqNum + s.outOfOrderPackets.size + 2 < 2 ^ 64) &&
    match ev with
    | .packet bytes _ _ _ =>
      match PacketCodec.openClient s.codec bytes with
      | .ok (w, _, _) => decide (w.seqNum < 2 ^ 64)
      | .error _ => true
    | _ => true

/-- A call adds to the two counters and takes nothing off what it added, so no addition of it overflows
    if what it leaves are u64. -/
structure Fits (s : AuthoritativeSession C T) : Prop where
  seqNum : s.seqNum < 2 ^ 64
  expectedClientSeq : s.expectedClientSeq < 2 ^ 64

/-- The call returns, and no addition overflows. -/
def Survives (s : AuthoritativeSession C T) (ev : SessionEvent) : Prop :=
  ∃ s', s.step ev = some s' ∧ Fits s'

/-- The packet brings no handshake into the loop, and no handshake that gets past the guard has the
    greatest number there is. -/
def Harmless (s : AuthoritativeSession C T) (ev : SessionEvent) : Prop :=
  s.hitsUnreachable ev = false ∧ s.resetTo ev ≠ some (2 ^ 64 - 1)

instance (s : AuthoritativeSession C T) (ev : SessionEvent) : Decidable (s.Harmless ev) :=
  inferInstanceAs (Decidable (_ ∧ _))

/-- The counters fit, and what waits has no high bit. -/
structure Roomy (s : AuthoritativeSession C T) : Prop where
  fits : Fits s
  held : ∀ n ∈ s.outOfOrderPackets, n < 2 ^ 63

variable {ev : SessionEvent}

theorem feedInOrder_eq_none_iff {ack : ℕ} {payload : ClientPayload} {now : Instant} {echo : Bool} :
    s.feedInOrder ack payload now echo = none ↔
      reachesHandshake s.codec (s.advance ack).ackSeqNum s.seqNum (s.packetsToProcess payload) = true := by
  have hloop := processAll_eq_none_iff (s.packetsToProcess payload) (s.advance ack) []
  refine Iff.trans ?_ hloop
  unfold feedInOrder
  split <;> simp [*]

/-- A call returns unless it comes to a handshake. -/
theorem step_eq_none_iff : s.step ev = none ↔ s.hitsUnreachable ev = true := by
  cases ev with
  | ptyBytes data now => simp [step, hitsUnreachable]
  | tick now echo => simp [step, hitsUnreachable]
  | packet bytes src now echo =>
    simp only [step, Option.map_eq_none_iff, feedPacket, hitsUnreachable]
    rcases PacketCodec.openClient s.codec bytes with e | ⟨w, p, st⟩
    · simp
    · dsimp only
      by_cases h0 : w.sessionId = 0
      · simp [h0]
      · by_cases hsid : w.sessionId = s.sessionId
        · simp only [if_neg h0, if_neg (not_not.mpr hsid), feedHeard]
          cases htr : isTransient w.seqNum p with
          | true => simp
          | false =>
            rcases Nat.lt_trichotomy w.seqNum s.expectedClientSeq with hlt | heq | hgt
            · simp [heard, hlt, hlt.ne]
            · have hloop : (s.heard src now).feedInOrder w.ackSeqNum p now echo = none ↔
                  reachesHandshake s.codec (s.advance w.ackSeqNum).ackSeqNum s.seqNum
                    (s.packetsToProcess p) = true :=
                feedInOrder_eq_none_iff (s := s.heard src now)
              have hexp : (s.heard src now).expectedClientSeq = s.expectedClientSeq := rfl
              have h0' : ¬ s.sessionId = 0 := hsid ▸ h0
              rw [hexp, heq, if_neg Bool.false_ne_true, if_neg (Nat.lt_irrefl _),
                if_neg (Nat.lt_irrefl _), hloop]
              simp [hsid, h0']
            · simp [heard, hgt, Nat.not_lt.mpr hgt.le, hgt.ne']
        · simp [h0, hsid]

omit [PacketCodec C] [TerminalState T] in
theorem lt_of_not_transient {n : ℕ} {payload : ClientPayload} (h : isTransient n payload = false)
    (hn : n < 2 ^ 64) : n < 2 ^ 63 := by
  simp only [isTransient, Bool.or_eq_false_iff, Nat.testBit_eq_decide_div_mod_eq,
    decide_eq_false_iff_not] at h
  have hbit := h.1
  omega

omit [PacketCodec C] [TerminalState T] in
/-- The window moves at most to 2^63: the packets it moves over have no high bit. -/
theorem advance_le (hheld : ∀ n ∈ s.outOfOrderPackets, n < 2 ^ 63) (hexp : s.expectedClientSeq < 2 ^ 63)
    (ack : ℕ) : (s.advance ack).expectedClientSeq ≤ 2 ^ 63 := by
  have hnum := drain_numbers s.outOfOrderPackets.size s.outOfOrderPackets (s.expectedClientSeq + 1)
  have hadv : (s.advance ack).expectedClientSeq = s.expectedClientSeq + 1 +
    (drain s.outOfOrderPackets.size s.outOfOrderPackets (s.expectedClientSeq + 1)).1.length := hnum.2
  rw [hadv]
  by_contra hlt
  have hmem : s.expectedClientSeq + (drain s.outOfOrderPackets.size s.outOfOrderPackets
      (s.expectedClientSeq + 1)).1.length ∈ (drain s.outOfOrderPackets.size s.outOfOrderPackets
      (s.expectedClientSeq + 1)).1.map Prod.fst := by
    rw [hnum.1, List.mem_range'_1]
    omega
  obtain ⟨e, he, heq⟩ := List.mem_map.mp hmem
  have hin : e.1 ∈ s.outOfOrderPackets := by
    rw [TreeMap.mem_iff_isSome_getElem?, drain_mem _ _ _ e he]
    rfl
  have hsmall := hheld e.1 hin
  omega

omit [PacketCodec C] [TerminalState T] in
/-- What still waits waited before. -/
theorem mem_of_mem_advance {ack n : ℕ} (h : n ∈ (s.advance ack).outOfOrderPackets) :
    n ∈ s.outOfOrderPackets := by
  have hkept := getElem?_drain s.outOfOrderPackets.size s.outOfOrderPackets (s.expectedClientSeq + 1) n
  have hsome : (s.advance ack).outOfOrderPackets[n]?.isSome = true :=
    TreeMap.mem_iff_isSome_getElem?.mp h
  have hadv : (s.advance ack).outOfOrderPackets = (drain s.outOfOrderPackets.size s.outOfOrderPackets
    (s.expectedClientSeq + 1)).2.1 := rfl
  rw [hadv, hkept] at hsome
  split at hsome
  · cases hsome
  · exact TreeMap.mem_iff_isSome_getElem?.mpr hsome

/-- A call takes a number for each reply and for a frame. -/
theorem step_seqNum_le (h : s.step ev = some s') :
    s'.seqNum ≤ s.seqNum + s.outOfOrderPackets.size + 2 := by
  cases ev with
  | ptyBytes data now =>
    cases h
    simp only [onPtyBytes]
    omega
  | tick now echo =>
    cases h
    have hsync := seqNum_checkSync s now echo
    exact hsync.trans (by omega)
  | packet bytes src now echo =>
    obtain ⟨⟨t, r⟩, hf, rfl⟩ := Option.map_eq_some_iff.mp h
    rcases feedPacket_cases hf with ⟨rfl, -, -⟩ | ⟨w, p, st, -, ⟨-, hs⟩ | ⟨-, -, hcase⟩⟩
    · dsimp only
      omega
    · rcases feedHandshake_cases hs with ⟨-, rfl, -⟩ | ⟨-, u, hu, hcase⟩
      · dsimp only
        omega
      · have hseq : u.seqNum = s.seqNum + 1 := by rw [hu]; rfl
        rcases hcase with ⟨e, -, rfl, -⟩ | ⟨ds, -, rfl, -⟩
        · dsimp only
          omega
        · have hsync := seqNum_checkSync u now echo
          dsimp only
          omega
    · rcases hcase with ⟨-, hs⟩ | ⟨-, ⟨-, rfl, -⟩ | ⟨-, -, rfl⟩ | ⟨-, ho⟩⟩
      · cases hs
        have hsync := seqNum_checkSync ((s.heard src now).noteAck w.ackSeqNum) now echo
        exact hsync.trans (Nat.add_le_add (Nat.le_add_right _ _) (Nat.le_succ 1))
      · simp only [heard]
        omega
      · simp only [heard, buffer]
        omega
      · have hlen : ((s.heard src now).packetsToProcess p).length ≤ s.outOfOrderPackets.size + 1 :=
          Nat.succ_le_succ (length_drain_le _ _ _)
        have hseq : ((s.heard src now).advance w.ackSeqNum).seqNum = s.seqNum := rfl
        rcases feedInOrder_cases ho with ⟨e, hp, -⟩ | ⟨u, acts, hp, rfl, -⟩
        · have hloop := seqNum_processAll hp
          dsimp only
          omega
        · have hloop := seqNum_processAll hp
          have hsync := seqNum_checkSync u now echo
          dsimp only
          omega

/-- A packet of the session: only one without the high bit waits or is waited for. -/
theorem Roomy.feedHeard (h : Roomy s) {w : EncryptedClientPacket} {p : ClientPayload} {now : Instant}
    {echo : Bool} {r : Except Error (List (SessionAction C))} (hw : w.seqNum < 2 ^ 64)
    (hf : s.feedHeard w p now echo = some (s', r)) :
    (∀ n ∈ s'.outOfOrderPackets, n < 2 ^ 63) ∧ s'.expectedClientSeq < 2 ^ 64 := by
  have hfit := h.fits.expectedClientSeq
  rcases feedHeard_cases hf with ⟨-, hx⟩ | ⟨htr, ⟨-, rfl, -⟩ | ⟨-, -, rfl⟩ | ⟨hexp, ho⟩⟩
  · cases hx
    have hsame := checkSync_sameWindow (s.noteAck w.ackSeqNum) now echo
    rw [hsame.outOfOrderPackets, hsame.expectedClientSeq]
    exact ⟨h.held, hfit⟩
  · exact ⟨h.held, hfit⟩
  · refine ⟨fun n hn => ?_, hfit⟩
    rcases TreeMap.mem_insert.mp hn with heq | hn
    · rw [Nat.compare_eq_eq] at heq
      exact heq ▸ lt_of_not_transient htr hw
    · exact h.held n hn
  · have hle := advance_le h.held (hexp ▸ lt_of_not_transient htr hw) w.ackSeqNum
    have hkept : ∀ n ∈ (s.advance w.ackSeqNum).outOfOrderPackets, n < 2 ^ 63 :=
      fun n hn => h.held n (mem_of_mem_advance hn)
    rcases feedInOrder_cases ho with ⟨e, hp, -⟩ | ⟨u, acts, hp, rfl, -⟩
    · have hpr := processAll_processed hp
      rw [hpr.outOfOrderPackets, hpr.expectedClientSeq]
      exact ⟨hkept, by omega⟩
    · have hpr := processAll_processed hp
      have hsame := checkSync_sameWindow u now echo
      rw [hsame.outOfOrderPackets, hsame.expectedClientSeq, hpr.outOfOrderPackets,
        hpr.expectedClientSeq]
      exact ⟨hkept, by omega⟩

/-- STEP: a call leaves packets without the high bit waiting, and a window that fits unless a handshake
    moves it. -/
theorem Roomy.window (h : Roomy s) (hr : s.inRange ev = true) (hs : s.step ev = some s') :
    (∀ n ∈ s'.outOfOrderPackets, n < 2 ^ 63) ∧
      (s.resetTo ev = none → s'.expectedClientSeq < 2 ^ 64) ∧
      ∀ n, s.resetTo ev = some n → s'.expectedClientSeq = n + 1 := by
  have hfit := h.fits.expectedClientSeq
  cases ev with
  | ptyBytes data now =>
    cases hs
    exact ⟨h.held, fun _ => hfit, fun _ hn => nomatch hn⟩
  | tick now echo =>
    cases hs
    have hw := checkSync_sameWindow s now echo
    refine ⟨?_, fun _ => ?_, fun _ hn => nomatch hn⟩
    · rw [onTick, hw.outOfOrderPackets]
      exact h.held
    · rw [onTick, hw.expectedClientSeq]
      exact hfit
  | packet bytes src now echo =>
    obtain ⟨⟨t, r⟩, hf, rfl⟩ := Option.map_eq_some_iff.mp hs
    dsimp only
    rcases feedPacket_cases hf with ⟨rfl, -, hother⟩ | ⟨w, p, st, hopen, hcase⟩
    · refine ⟨h.held, fun _ => hfit, fun n hn => ?_⟩
      rcases hopen : PacketCodec.openClient t.codec bytes with e | ⟨w, p, st⟩
      · simp [resetTo, hopen] at hn
      · simp [resetTo, hopen, (hother w p st hopen).1] at hn
    · simp only [inRange, hopen, Bool.and_eq_true, decide_eq_true_eq] at hr
      rcases hcase with ⟨h0, hshake⟩ | ⟨h0, hsid, -⟩
      · rcases feedHandshake_cases hshake with ⟨hi, rfl, -⟩ | ⟨hi, u, hu, hcase⟩
        · exact ⟨h.held, fun _ => hfit, fun n hn => by simp [resetTo, hopen, hi] at hn⟩
        · have hempty : u.outOfOrderPackets = ∅ := by rw [hu]; rfl
          have hexp : u.expectedClientSeq = w.seqNum + 1 := by rw [hu]; rfl
          have hleft : t.outOfOrderPackets = ∅ ∧ t.expectedClientSeq = w.seqNum + 1 := by
            rcases hcase with ⟨e, -, rfl, -⟩ | ⟨ds, -, rfl, -⟩
            · exact ⟨hempty, hexp⟩
            · have hw := checkSync_sameWindow u now echo
              exact ⟨hw.outOfOrderPackets.trans hempty, hw.expectedClientSeq.trans hexp⟩
          refine ⟨fun n hn => ?_, fun hno => ?_, fun n hn => ?_⟩
          · rw [hleft.1] at hn
            exact absurd hn TreeMap.not_mem_emptyc
          · simp [resetTo, hopen, h0, hi] at hno
          · simp only [resetTo, hopen, h0, hi, and_self, if_true, Option.some.injEq] at hn
            rw [hleft.2, hn]
      · have hno : ∀ n, s.resetTo (.packet bytes src now echo) = some n → t.expectedClientSeq = n + 1 :=
          fun n hn => by simp [resetTo, hopen, h0] at hn
        have hheard : Roomy (s.heard src now) := ⟨⟨h.fits.seqNum, hfit⟩, h.held⟩
        rw [feedPacket_eq_feedHeard hopen h0 hsid] at hf
        have hleft := hheard.feedHeard hr.2 hf
        exact ⟨hleft.1, fun _ => hleft.2, hno⟩

omit [TerminalState T] in
theorem resetTo_lt {n : ℕ} (hr : s.inRange ev = true) (h : s.resetTo ev = some n) : n < 2 ^ 64 := by
  cases ev with
  | ptyBytes data now => cases h
  | tick now echo => cases h
  | packet bytes src now echo =>
    rcases hopen : PacketCodec.openClient s.codec bytes with e | ⟨w, p, st⟩
    · simp [resetTo, hopen] at h
    · simp only [resetTo, hopen, Option.ite_none_right_eq_some, Option.some.injEq] at h
      simp only [inRange, hopen, Bool.and_eq_true, decide_eq_true_eq] at hr
      exact h.2 ▸ hr.2

/-- STEP: a call that comes to no handshake and takes none with the greatest number keeps the counters
    and the window in range. -/
theorem Roomy.step (h : Roomy s) (hr : s.inRange ev = true) (hno : s.resetTo ev ≠ some (2 ^ 64 - 1))
    (hs : s.step ev = some s') : Roomy s' := by
  obtain ⟨hheld, hstay, hmove⟩ := h.window hr hs
  have hseq := step_seqNum_le hs
  have hroom : s.seqNum + s.outOfOrderPackets.size + 2 < 2 ^ 64 := by
    simp only [inRange, Bool.and_eq_true, decide_eq_true_eq] at hr
    exact hr.1
  refine ⟨⟨by omega, ?_⟩, hheld⟩
  cases hreset : s.resetTo ev with
  | none => exact hstay hreset
  | some n =>
    have hn := resetTo_lt hr hreset
    have hexp := hmove n hreset
    have hne : n ≠ 2 ^ 64 - 1 := fun heq => hno (heq ▸ hreset)
    omega

/-- STEP: a call survives exactly under the condition. -/
theorem survives_iff (h : Roomy s) (hr : s.inRange ev = true) : s.Survives ev ↔ s.Harmless ev := by
  constructor
  · rintro ⟨s', hs, hfits⟩
    refine ⟨?_, fun hreset => ?_⟩
    · cases hhit : s.hitsUnreachable ev with
      | false => rfl
      | true =>
        rw [step_eq_none_iff.mpr hhit] at hs
        cases hs
    · have hexp := (h.window hr hs).2.2 _ hreset
      have hfit := hfits.expectedClientSeq
      omega
  · rintro ⟨hhit, hreset⟩
    obtain ⟨s', hs⟩ : ∃ s', s.step ev = some s' := by
      refine Option.ne_none_iff_exists'.mp fun hnone => ?_
      rw [step_eq_none_iff.mp hnone] at hhit
      cases hhit
    exact ⟨s', hs, (h.step hr hreset hs).fits⟩

/-- RUN: as long as the session's own counter is in range, a run survives exactly when no packet brings a
    handshake into the loop and no handshake that is taken has the greatest number. -/
theorem survives_run_iff {sid : ℕ} {codec : C} {c : ℕ} {addr : SocketAddr} {cols rows : ℕ}
    {now : Instant} {s₀ : AuthoritativeSession C T} {events : List SessionEvent} (hc : c + 1 < 2 ^ 64)
    (hnew : AuthoritativeSession.new sid codec c addr cols rows now = .ok s₀)
    (hr : StepsMeet AuthoritativeSession.step (fun s ev => s.inRange ev = true) s₀ events) :
    StepsMeet AuthoritativeSession.step Survives s₀ events ↔
      StepsMeet AuthoritativeSession.step Harmless s₀ events := by
  have hstart : Roomy s₀ := by
    obtain ⟨t, -, hnew⟩ := bind_eq_ok.mp hnew
    cases hnew
    exact ⟨⟨Nat.two_pow_pos 64, hc⟩, fun n hn => absurd hn TreeMap.not_mem_emptyc⟩
  constructor
  · intro hall
    refine StepsMeet.imp_of_invariant (fun s ev s' h hP hs => ?_) (fun s ev h hP => ?_) hstart
      (hr.and hall)
    · exact h.step hP.1 ((survives_iff h hP.1).mp hP.2).2 hs
    · exact (survives_iff h hP.1).mp hP.2
  · intro hall
    refine StepsMeet.imp_of_invariant (fun s ev s' h hP hs => ?_) (fun s ev h hP => ?_) hstart
      (hr.and hall)
    · exact h.step hP.1 hP.2.2 hs
    · exact (survives_iff h hP.1).mpr hP.2

/-- A keystroke that comes before its turn, and the keepalive it waits for. -/
theorem survives_keystroke :
    ∃ (s₀ : AuthoritativeSession (ChaChaCodec Bincode.crates) TextTerminal) (keys alive : Bytes),
      let addr : SocketAddr := ⟨0, 0⟩
      let codec := ChaChaCodec.new Bincode.crates (Vector.replicate 32 0) (2 ^ 32)
      let events := [SessionEvent.packet keys addr 1 false, .packet alive addr 2 false]
      new (2 ^ 32) codec 1 addr 8 2 0 = .ok s₀ ∧
      codec.sealClient (2 ^ 32) 3 0 (.keystrokes [0x61]) = .ok keys ∧
      codec.sealClient (2 ^ 32) 2 0 .keepAlive = .ok alive ∧
      StepsMeet AuthoritativeSession.step Survives s₀ events := by
  refine ⟨_, _, _, rfl, rfl, rfl, ?_⟩
  have hnew : new (C := ChaChaCodec Bincode.crates) (T := TextTerminal) (2 ^ 32)
      (ChaChaCodec.new Bincode.crates (Vector.replicate 32 0) (2 ^ 32)) 1 ⟨0, 0⟩ 8 2 0 = .ok _ := rfl
  refine (survives_run_iff (by decide) hnew ?_).mpr ?_
  · decide +kernel
  · decide +kernel

/-- A handshake under the session's own id, as the expected packet or as one that waits for a keepalive;
    and the greatest number under id 0. -/
theorem handshake_panics :
    ∃ (s₀ s : AuthoritativeSession (ChaChaCodec Bincode.crates) TextTerminal)
      (hello early alive greatest : Bytes),
      let addr : SocketAddr := ⟨0, 0⟩
      let codec := ChaChaCodec.new Bincode.crates (Vector.replicate 32 0) (2 ^ 32)
      new (2 ^ 32) codec 1 addr 8 2 0 = .ok s₀ ∧
      codec.sealClient (2 ^ 32) 2 0 (.handshake 1 8 2) = .ok hello ∧
      codec.sealClient (2 ^ 32) 3 0 (.handshake 1 8 2) = .ok early ∧
      codec.sealClient (2 ^ 32) 2 0 .keepAlive = .ok alive ∧
      codec.sealClient 0 (2 ^ 64 - 1) 0 (.handshake 1 8 2) = .ok greatest ∧
      (∀ bytes ∈ [hello, early, alive, greatest], (codec.openClient bytes).isOk = true) ∧
      s₀.feedPacket hello addr 1 false = none ∧
      runFrom AuthoritativeSession.step s₀ [.packet early addr 1 false, .packet alive addr 2 false] =
        none ∧
      s₀.step (.packet greatest addr 1 false) = some s ∧ ¬ Fits s := by
  refine ⟨_, _, _, _, _, _, rfl, rfl, rfl, rfl, rfl, ?_, rfl, rfl, rfl, ?_⟩
  · decide +kernel
  · intro h
    have hexp := h.expectedClientSeq
    revert hexp
    decide +kernel

end AuthoritativeSession

end Rumsh.Server
