import Rumsh.Protocol.Bincode
import Rumsh.Server.Emits
import Rumsh.Server.TextTerminal

/-! Whether a processed packet is acknowledged.

    Frames carry the acks: `check_sync` makes one when `ack_seq_num` is ahead of `last_sent_ack_seq`,
    also on an idle screen. Processing moves the first counter forward and a frame moves the second up to
    it, but the reset of a reconnecting client takes the first one back and leaves the second where it
    was. Until the next frame the comparison then says that nothing is owed. -/

namespace Rumsh.Server
open Std Rumsh.Schemes Rumsh.Protocol

namespace AuthoritativeSession
variable {C T : Type} [TerminalState T]

/-- The terminal's grid compiles. -/
def compiles (s : AuthoritativeSession C T) : Bool :=
  (TerminalState.updateAndGetState s.termState).2.isOk

/-- A turn hands out no job and leaves the ack sent, or hands out a job with the ack it leaves. -/
def Handed (s s' : AuthoritativeSession C T) (actions : List (SessionAction C)) : Prop :=
  (jobsOf actions = [] ∧ s'.lastSentAckSeq = s.lastSentAckSeq) ∨
  (s'.lastSentAckSeq = s'.ackSeqNum ∧ ∃ job ∈ jobsOf actions, job.ackSeq = s'.ackSeqNum)

/-- A frame is due whatever the terminal shows. -/
def Owes (s : AuthoritativeSession C T) : Prop :=
  s.lastSentAckSeq < s.ackSeqNum ∨ (s.dirty = true ∧ s.stateHistory = [])

variable {s s' : AuthoritativeSession C T}

theorem checkSync_handed (s : AuthoritativeSession C T) (now : Instant) (echo : Bool) :
    Handed s (s.checkSync now echo).1 (s.checkSync now echo).2 := by
  obtain ⟨-, -, -, -, hcalm⟩ := calmed_same s now
  rcases checkSync_cases s now echo with hs | ⟨-, hs⟩ | ⟨-, t, ⟨e, -, hs⟩ | ⟨g, -, ⟨-, -, hs⟩ | hs⟩⟩ <;>
    rw [hs]
  · exact .inl ⟨rfl, rfl⟩
  · exact .inl ⟨rfl, hcalm⟩
  · exact .inl ⟨rfl, hcalm⟩
  · exact .inl ⟨rfl, hcalm⟩
  · exact .inr ⟨rfl, _, List.mem_singleton.mpr rfl, rfl⟩

/-- A frame that is due is handed out exactly when the pause is over and the grid compiles. -/
theorem checkSync_owes (h : Owes s) (now : Instant) (echo : Bool) :
    jobsOf (s.checkSync now echo).2 ≠ [] ↔ s.throttled now = false ∧ s.compiles = true := by
  obtain ⟨hterm, hhist, -, hdirty, hlast⟩ := calmed_same s now
  have hack := (calmed_sameWindow s now).ackSeqNum
  unfold checkSync
  cases hth : s.throttled now with
  | true => simp
  | false =>
    have hup : (s.calmed now).upToDate = false := by
      rw [upToDate, hdirty, hack, hlast]
      rcases h with hlt | ⟨hd, -⟩
      · simp [hlt]
      · simp [hd]
    rw [hup, if_neg Bool.false_ne_true, if_neg Bool.false_ne_true, syncGrid, compiles, hterm]
    rcases TerminalState.updateAndGetState s.termState with ⟨t, _ | g⟩
    · simp [Except.isOk, Except.toBool]
    · have hskip : (isIdentical (s.calmed now).stateHistory g &&
          !decide ((s.calmed now).ackSeqNum > (s.calmed now).lastSentAckSeq)) = false := by
        rw [hhist, hack, hlast]
        rcases h with hlt | ⟨-, hnil⟩
        · simp [hlt]
        · simp [isIdentical, hnil]
      dsimp only
      rw [hskip, if_neg Bool.false_ne_true]
      simp [queueFrame, jobsOf, Except.isOk, Except.toBool]

variable [PacketCodec C]

/-- The reply to a handshake seals, and a frame goes out with it. -/
def greets (s : AuthoritativeSession C T) (seqNum : ℕ) (now : Instant) : Bool :=
  (PacketCodec.sealServer s.codec (s.seqNum + 1) seqNum (.handshakeAck s.sessionId)).isOk &&
    decide (now - s.lastSyncTime ≥ s.minInterval now) && s.compiles

/-- The number of a handshake that gets past the guard. -/
def resetTo (s : AuthoritativeSession C T) : SessionEvent → Option ℕ
  | .packet bytes _ now _ =>
    match PacketCodec.openClient s.codec bytes with
    | .ok (w, _, _) => if w.sessionId = 0 ∧ s.ignoresHandshake now = false then some w.seqNum else none
    | .error _ => none
  | _ => none

/-- A handshake that takes the window back behind the last ack sent makes a frame of its own, and at a
    tick that owes a frame the grid compiles. -/
def AcksInStep (s : AuthoritativeSession C T) : SessionEvent → Prop
  | .packet bytes src now echo =>
    ∀ seqNum ∈ s.resetTo (.packet bytes src now echo), seqNum < s.lastSentAckSeq →
      s.greets seqNum now = true
  | .tick now _ => s.lastSentAckSeq < s.ackSeqNum → s.throttled now = false → s.compiles = true
  | .ptyBytes _ _ => True

instance (s : AuthoritativeSession C T) : (ev : SessionEvent) → Decidable (s.AcksInStep ev)
  | .packet bytes src now echo => inferInstanceAs (Decidable (∀ seqNum ∈
      s.resetTo (.packet bytes src now echo), seqNum < s.lastSentAckSeq → s.greets seqNum now = true))
  | .tick now _ => inferInstanceAs (Decidable
      (s.lastSentAckSeq < s.ackSeqNum → s.throttled now = false → s.compiles = true))
  | .ptyBytes _ _ => .isTrue trivial

/-- No ack is ahead of what was received; what moves the window is acknowledged at once or owed; and
    a tick after the pause pays what is owed. -/
def Acknowledges (s : AuthoritativeSession C T) (ev : SessionEvent) : Prop :=
  ∀ s' actions, s.turn ev = some (s', actions) →
    s'.lastSentAckSeq ≤ s'.ackSeqNum ∧
    (s.expectedClientSeq < s'.expectedClientSeq →
      (∃ job ∈ jobsOf actions, job.ackSeq = s'.ackSeqNum) ∨ s'.lastSentAckSeq < s'.ackSeqNum) ∧
    ∀ now echo, ev = .tick now echo → s.lastSentAckSeq < s.ackSeqNum → s.throttled now = false →
      ∃ job ∈ jobsOf actions, job.ackSeq = s.ackSeqNum

/-- The window starts right behind what was received. -/
structure Level (s : AuthoritativeSession C T) : Prop where
  window : s.ackSeqNum + 1 = s.expectedClientSeq
  acks : s.lastSentAckSeq ≤ s.ackSeqNum

variable {ev : SessionEvent} {actions : List (SessionAction C)}

/-- What a turn does to the window and the acks, when it is no reset. -/
structure Forward (s s' : AuthoritativeSession C T) (actions : List (SessionAction C)) : Prop where
  window : s'.ackSeqNum + 1 = s'.expectedClientSeq
  acks : s.ackSeqNum ≤ s'.ackSeqNum
  handed : Handed s s' actions

/-- A reset hands out a job exactly when it greets. -/
structure Reset (s s' : AuthoritativeSession C T) (actions : List (SessionAction C)) (seqNum : ℕ)
    (now : Instant) : Prop where
  window : s'.expectedClientSeq = seqNum + 1
  acks : s'.ackSeqNum = seqNum
  handed : Handed s s' actions
  greets : jobsOf actions ≠ [] ↔ s.greets seqNum now = true

theorem feedHandshake_reset {seqNum : ℕ} {src : SocketAddr} {now : Instant} {echo : Bool}
    {r : Except Error (List (SessionAction C))} (hi : s.ignoresHandshake now = false)
    (h : s.feedHandshake seqNum src now echo = (s', r)) : Reset s s' (actionsOf r) seqNum now := by
  rcases feedHandshake_cases h with ⟨hi', -⟩ | ⟨-, t, ht, hcase⟩
  · rw [hi] at hi'
    cases hi'
  · have hack : t.ackSeqNum = seqNum := by rw [ht]; rfl
    have hexp : t.expectedClientSeq = seqNum + 1 := by rw [ht]; rfl
    have hlast : t.lastSentAckSeq = s.lastSentAckSeq := by rw [ht]; rfl
    rcases hcase with ⟨e, hseal, rfl, rfl⟩ | ⟨datagrams, hseal, rfl, rfl⟩
    · refine ⟨hexp, hack, .inl ⟨rfl, hlast⟩, ?_⟩
      simp [actionsOf, AuthoritativeSession.greets, hseal, Except.isOk, Except.toBool]
    · have howes : Owes t := .inr (by rw [ht]; exact ⟨rfl, rfl⟩)
      have hth : t.throttled now = decide (now - s.lastSyncTime < s.minInterval now) := by
        rw [ht]
        simp [throttled, sealNext, resetFor, minInterval]
      have hcompiles : t.compiles = s.compiles := by rw [ht]; rfl
      have hw := checkSync_sameWindow t now echo
      have hjobs : jobsOf (actionsOf (.ok (sendAll datagrams src ++ (t.checkSync now echo).2))) =
          jobsOf (t.checkSync now echo).2 := by
        simp [actionsOf]
      refine ⟨hw.expectedClientSeq.trans hexp, hw.ackSeqNum.trans hack, ?_, ?_⟩
      · have hhanded := checkSync_handed t now echo
        unfold Handed at hhanded ⊢
        rwa [hjobs, ← hlast]
      · rw [hjobs, checkSync_owes howes, hth, hcompiles, AuthoritativeSession.greets, hseal]
        simp [Except.isOk, Except.toBool]

/-- INVERSION: a turn that is no reset moves forward. -/
theorem turn_forward (h : s.ackSeqNum + 1 = s.expectedClientSeq) (hno : s.resetTo ev = none)
    (ht : s.turn ev = some (s', actions)) : Forward s s' actions := by
  have hsync : ∀ (t : AuthoritativeSession C T) (now : Instant) (echo : Bool)
      (more : List (SessionAction C)), t.ackSeqNum + 1 = t.expectedClientSeq →
      s.ackSeqNum ≤ t.ackSeqNum → t.lastSentAckSeq = s.lastSentAckSeq → jobsOf more = [] →
      Forward s (t.checkSync now echo).1 (more ++ (t.checkSync now echo).2) := by
    intro t now echo more hwin hle hlast hmore
    have hw := checkSync_sameWindow t now echo
    have hhanded := checkSync_handed t now echo
    refine ⟨by rw [hw.ackSeqNum, hw.expectedClientSeq, hwin], by rw [hw.ackSeqNum]; exact hle, ?_⟩
    unfold Handed at hhanded ⊢
    rwa [jobsOf_append, hmore, List.nil_append, ← hlast]
  cases ev with
  | ptyBytes data now =>
    cases ht
    exact ⟨h, le_rfl, .inl ⟨rfl, rfl⟩⟩
  | tick now echo =>
    obtain ⟨rfl, rfl⟩ := Prod.mk.inj (Option.some.inj ht)
    exact hsync s now echo [] h le_rfl rfl rfl
  | packet bytes src now echo =>
    obtain ⟨⟨t, r⟩, hf, heq⟩ := Option.map_eq_some_iff.mp ht
    obtain ⟨rfl, rfl⟩ := Prod.mk.inj heq
    rcases feedPacket_cases hf with ⟨rfl, rfl, -⟩ | ⟨w, p, st, hopen, hcase⟩
    · exact ⟨h, le_rfl, .inl ⟨rfl, rfl⟩⟩
    · rcases hcase with ⟨h0, hs⟩ | ⟨h0, hsid, hcase⟩
      · rcases feedHandshake_cases hs with ⟨-, rfl, rfl⟩ | ⟨hi, -⟩
        · exact ⟨h, le_rfl, .inl ⟨rfl, rfl⟩⟩
        · simp [resetTo, hopen, h0, hi] at hno
      · rcases hcase with ⟨-, hs⟩ | ⟨-, ⟨-, rfl, rfl⟩ | ⟨-, rfl, rfl⟩ | ⟨-, ho⟩⟩
        · cases hs
          exact hsync ((s.heard src now).noteAck w.ackSeqNum) now echo _ h le_rfl rfl (by simp)
        · exact ⟨h, le_rfl, .inl ⟨rfl, rfl⟩⟩
        · exact ⟨h, le_rfl, .inl ⟨rfl, rfl⟩⟩
        · have hlt := (packetsToProcess_numbers (s.heard src now) .ack w.ackSeqNum).2
          have hexp : (s.heard src now).expectedClientSeq = s.expectedClientSeq := rfl
          have hack : ((s.heard src now).advance w.ackSeqNum).ackSeqNum =
              ((s.heard src now).advance w.ackSeqNum).expectedClientSeq - 1 := rfl
          have hwin : ((s.heard src now).advance w.ackSeqNum).ackSeqNum + 1 =
              ((s.heard src now).advance w.ackSeqNum).expectedClientSeq := by omega
          have hle : s.ackSeqNum ≤ ((s.heard src now).advance w.ackSeqNum).ackSeqNum := by omega
          rcases feedInOrder_cases ho with ⟨e, hp, rfl⟩ | ⟨u, acts, hp, rfl, rfl⟩
          · have hpr := processAll_processed hp
            exact ⟨by rw [hpr.ackSeqNum, hpr.expectedClientSeq, hwin], by rw [hpr.ackSeqNum]; exact hle,
              .inl ⟨rfl, hpr.lastSentAckSeq⟩⟩
          · have hpr := processAll_processed hp
            exact hsync u now echo acts (by rw [hpr.ackSeqNum, hpr.expectedClientSeq, hwin])
              (by rw [hpr.ackSeqNum]; exact hle) hpr.lastSentAckSeq
              (by rw [jobsOf_processAll hp]; rfl)

theorem turn_reset {seqNum : ℕ} (hreset : s.resetTo ev = some seqNum)
    (ht : s.turn ev = some (s', actions)) :
    ∃ bytes src now echo, ev = .packet bytes src now echo ∧ Reset s s' actions seqNum now := by
  cases ev with
  | ptyBytes data now => cases hreset
  | tick now echo => cases hreset
  | packet bytes src now echo =>
    refine ⟨bytes, src, now, echo, rfl, ?_⟩
    obtain ⟨⟨t, r⟩, hf, heq⟩ := Option.map_eq_some_iff.mp ht
    obtain ⟨rfl, rfl⟩ := Prod.mk.inj heq
    rcases hopen : PacketCodec.openClient s.codec bytes with e | ⟨w, p, st⟩
    · simp [resetTo, hopen] at hreset
    · simp only [resetTo, hopen, Option.ite_none_right_eq_some, Option.some.injEq] at hreset
      obtain ⟨⟨h0, hi⟩, rfl⟩ := hreset
      unfold feedPacket at hf
      simp only [hopen, h0, if_true] at hf
      exact feedHandshake_reset hi (Option.some.inj hf)

omit [TerminalState T] [PacketCodec C] in
/-- A forward turn keeps the acks in step, and what it moves over is acknowledged or owed. -/
theorem Forward.acknowledged (h : Level s) (hf : Forward s s' actions) :
    s'.lastSentAckSeq ≤ s'.ackSeqNum ∧ (s.expectedClientSeq < s'.expectedClientSeq →
      (∃ job ∈ jobsOf actions, job.ackSeq = s'.ackSeqNum) ∨ s'.lastSentAckSeq < s'.ackSeqNum) := by
  have h₁ := h.window
  have h₂ := h.acks
  have h₃ := hf.window
  have h₄ := hf.acks
  rcases hf.handed with ⟨-, hlast⟩ | ⟨hlast, hjob⟩
  · exact ⟨by omega, fun hlt => .inr (by omega)⟩
  · exact ⟨hlast.le, fun _ => .inl hjob⟩

/-- A reset does so unless it goes back behind the last ack sent and hands out no job. -/
theorem Reset.acknowledged_iff (h : Level s) {seqNum : ℕ} {now : Instant}
    (hr : Reset s s' actions seqNum now) :
    (s'.lastSentAckSeq ≤ s'.ackSeqNum ∧ (s.expectedClientSeq < s'.expectedClientSeq →
      (∃ job ∈ jobsOf actions, job.ackSeq = s'.ackSeqNum) ∨ s'.lastSentAckSeq < s'.ackSeqNum)) ↔
    (seqNum < s.lastSentAckSeq → s.greets seqNum now = true) := by
  have h₁ := h.window
  have h₂ := h.acks
  have h₃ := hr.window
  have h₄ := hr.acks
  rw [← hr.greets]
  rcases hr.handed with ⟨hnone, hlast⟩ | ⟨hlast, hjob⟩
  · constructor
    · exact fun ⟨hle, _⟩ hlt => absurd hle (by omega)
    · intro hgreets
      have hle : s.lastSentAckSeq ≤ seqNum := Nat.not_lt.mp fun hlt => hgreets hlt hnone
      exact ⟨by omega, fun hlt => .inr (by omega)⟩
  · obtain ⟨job, hmem, hack⟩ := hjob
    exact iff_of_true ⟨hlast.le, fun _ => .inl ⟨job, hmem, hack⟩⟩ fun _ => List.ne_nil_of_mem hmem

/-- STEP: the acks stay in step exactly under the condition. -/
theorem acknowledges_iff (h : Level s) (ht : s.turn ev = some (s', actions)) :
    s.Acknowledges ev ↔ s.AcksInStep ev := by
  have hone : s.Acknowledges ev ↔
      (s'.lastSentAckSeq ≤ s'.ackSeqNum ∧ (s.expectedClientSeq < s'.expectedClientSeq →
        (∃ job ∈ jobsOf actions, job.ackSeq = s'.ackSeqNum) ∨ s'.lastSentAckSeq < s'.ackSeqNum)) ∧
      ∀ now echo, ev = .tick now echo → s.lastSentAckSeq < s.ackSeqNum → s.throttled now = false →
        ∃ job ∈ jobsOf actions, job.ackSeq = s.ackSeqNum := by
    rw [and_assoc]
    refine ⟨fun hall => hall s' actions ht, fun hall t acts ht' => ?_⟩
    obtain ⟨rfl, rfl⟩ := Prod.mk.inj (Option.some.inj (ht.symm.trans ht'))
    exact hall
  rw [hone]
  cases hreset : s.resetTo ev with
  | some seqNum =>
    obtain ⟨bytes, src, now, echo, rfl, hr⟩ := turn_reset hreset ht
    rw [hr.acknowledged_iff h]
    simp [AcksInStep, hreset]
  | none =>
    have hf := turn_forward h.window hreset ht
    rw [and_iff_right (hf.acknowledged h)]
    cases ev with
    | ptyBytes data now => simp [AcksInStep]
    | packet bytes src now echo => simp [AcksInStep, hreset]
    | tick now echo =>
      obtain ⟨rfl, rfl⟩ := Prod.mk.inj (Option.some.inj ht)
      have hack : (s.onTick now echo).1.ackSeqNum = s.ackSeqNum :=
        (checkSync_sameWindow s now echo).ackSeqNum
      constructor
      · intro hpays howes hth
        obtain ⟨job, hmem, -⟩ := hpays now echo rfl howes hth
        exact ((checkSync_owes (.inl howes) now echo).mp (List.ne_nil_of_mem hmem)).2
      · rintro hkept _ _ ⟨⟩ howes hth
        have hsome := (checkSync_owes (.inl howes) now echo).mpr ⟨hth, hkept howes hth⟩
        rcases hf.handed with ⟨hnone, -⟩ | ⟨-, job, hmem, hjob⟩
        · exact absurd hnone hsome
        · exact ⟨job, hmem, hjob.trans hack⟩

/-- STEP: a turn in step leaves a session in step. -/
theorem Acknowledges.level (h : Level s) (hk : s.Acknowledges ev)
    (ht : s.turn ev = some (s', actions)) : Level s' := by
  refine ⟨?_, (hk s' actions ht).1⟩
  cases hreset : s.resetTo ev with
  | some seqNum =>
    obtain ⟨_, _, _, _, _, hr⟩ := turn_reset hreset ht
    rw [hr.acks, hr.window]
  | none => exact (turn_forward h.window hreset ht).window

omit [PacketCodec C] in
theorem level_new {sid : ℕ} {codec : C} {c : ℕ} {addr : SocketAddr} {cols rows : ℕ}
    {now : Instant} (h : AuthoritativeSession.new sid codec c addr cols rows now = .ok s) : Level s := by
  obtain ⟨t, -, h⟩ := bind_eq_ok.mp h
  cases h
  exact ⟨rfl, Nat.zero_le _⟩

theorem turn_of_step (h : s.step ev = some s') : ∃ actions, s.turn ev = some (s', actions) := by
  cases ev with
  | packet bytes src now echo =>
    obtain ⟨⟨t, r⟩, hf, rfl⟩ := Option.map_eq_some_iff.mp h
    exact ⟨actionsOf r, by rw [turn, hf]; rfl⟩
  | ptyBytes data now => exact ⟨[], congrArg (Option.map (·, [])) h⟩
  | tick now echo =>
    cases h
    exact ⟨_, rfl⟩

/-- RUN: the acks stay in step along a run exactly when each reset that goes back behind the last ack
    sent makes its own frame, and the grid compiles whenever a tick has to pay. -/
theorem acknowledges_run_iff {sid : ℕ} {codec : C} {c : ℕ} {addr : SocketAddr} {cols rows : ℕ}
    {now : Instant} {s₀ : AuthoritativeSession C T} {events : List SessionEvent}
    (hnew : AuthoritativeSession.new sid codec c addr cols rows now = .ok s₀)
    (hrun : runFrom AuthoritativeSession.step s₀ events = some s) :
    StepsMeet AuthoritativeSession.step Acknowledges s₀ events ↔
      StepsMeet AuthoritativeSession.step AcksInStep s₀ events := by
  constructor
  · intro hall
    refine StepsMeet.imp_of_run (fun s ev s' h hk hs => ?_) (level_new hnew) hall hrun
    obtain ⟨actions, ht⟩ := turn_of_step hs
    exact ⟨hk.level h ht, (acknowledges_iff h ht).mp hk⟩
  · intro hall
    refine StepsMeet.imp_of_run (fun s ev s' h hk hs => ?_) (level_new hnew) hall hrun
    obtain ⟨actions, ht⟩ := turn_of_step hs
    have hack := (acknowledges_iff h ht).mpr hk
    exact ⟨hack.level h ht, hack⟩

/-- A client types, gets its ack at 6 s, and connects again 20 ms later: its handshake is answered by a
    frame. -/
theorem acknowledges_reconnect :
    ∃ (s₀ s : AuthoritativeSession (ChaChaCodec Bincode.crates) TextTerminal) (keys hello : Bytes),
      let addr : SocketAddr := ⟨0, 0⟩
      let codec := ChaChaCodec.new Bincode.crates (Vector.replicate 32 0) (2 ^ 32)
      let events := [SessionEvent.tick 0 false, .packet keys addr 1 false, .tick (secs 6) false,
        .packet hello addr (secs 6 + millis 20) false]
      new (2 ^ 32) codec 1 addr 8 2 0 = .ok s₀ ∧
      codec.sealClient (2 ^ 32) 2 0 (.keystrokes [0x61]) = .ok keys ∧
      codec.sealClient 0 1 0 (.handshake 1 8 2) = .ok hello ∧
      runFrom AuthoritativeSession.step s₀ events = some s ∧
      StepsMeet AuthoritativeSession.step Acknowledges s₀ events := by
  refine ⟨_, _, _, _, rfl, rfl, rfl, rfl, ?_⟩
  have hnew : new (C := ChaChaCodec Bincode.crates) (T := TextTerminal) (2 ^ 32)
      (ChaChaCodec.new Bincode.crates (Vector.replicate 32 0) (2 ^ 32)) 1 ⟨0, 0⟩ 8 2 0 = .ok _ := rfl
  refine (acknowledges_run_iff hnew rfl).mpr ?_
  decide +kernel

/-- It connects again 1 ns after the frame with its ack: the frame for the new connection waits, and the
    last ack sent is ahead of what was received. The next packet finds nothing owed. -/
theorem reconnect_hides_ack :
    ∃ (s₀ t s : AuthoritativeSession (ChaChaCodec Bincode.crates) TextTerminal) (keys hello : Bytes),
      let addr : SocketAddr := ⟨0, 0⟩
      let codec := ChaChaCodec.new Bincode.crates (Vector.replicate 32 0) (2 ^ 32)
      let events := [SessionEvent.tick 0 false, .packet keys addr 1 false, .tick (secs 6) false,
        .packet hello addr (secs 6 + 1) false]
      new (2 ^ 32) codec 1 addr 8 2 0 = .ok s₀ ∧
      codec.sealClient (2 ^ 32) 2 0 (.keystrokes [0x61]) = .ok keys ∧
      codec.sealClient 0 1 0 (.handshake 1 8 2) = .ok hello ∧
      runFrom AuthoritativeSession.step s₀ events = some t ∧ ¬ t.lastSentAckSeq ≤ t.ackSeqNum ∧
      t.turn (.packet keys addr (secs 6 + 2) false) = some (s, []) ∧
      t.expectedClientSeq < s.expectedClientSeq ∧ ¬ s.lastSentAckSeq < s.ackSeqNum := by
  refine ⟨_, _, _, _, _, rfl, rfl, rfl, rfl, ?_, rfl, ?_, ?_⟩
  · decide +kernel
  · decide +kernel
  · decide +kernel

end AuthoritativeSession

end Rumsh.Server
