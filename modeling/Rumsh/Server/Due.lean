import Rumsh.Server.Updates
import Rumsh.Server.Freshness

/-! When a frame is due.

    `Tracked` ties the flags of the frame scheduler to the frames it has handed out: a clean session's
    terminal shows the last pushed grid, and the ack of the last job is the last ack sent. Every turn
    keeps it, until a second handshake resets the session; from it, a tick after the longest pause hands
    out a frame whenever something is owed. -/

namespace Rumsh.Server
open Std Rumsh.Schemes Rumsh.Protocol

/-- The grid can always be compiled. -/
def TerminalState.Compiles (T : Type) [TerminalState T] : Prop :=
  ∀ t : T, ∃ t' g, TerminalState.updateAndGetState t = (t', .ok g)

namespace AuthoritativeSession
variable {C T : Type}

/-- The datagram is the next reliable packet of this session, so it is processed in order. -/
def takesNext [PacketCodec C] (s : AuthoritativeSession C T) : SessionEvent → Bool
  | .packet bytes _ _ _ =>
    match PacketCodec.openClient s.codec bytes with
    | .ok (w, p, _) => w.sessionId ≠ 0 && w.sessionId == s.sessionId && !isTransient w.seqNum p &&
        w.seqNum == s.expectedClientSeq
    | .error _ => false
  | _ => false

/-! ### The invariant -/

section Tracked
variable [TerminalState T]

/-- What the scheduler's flags say about the frames handed out so far. -/
structure Tracked (s : AuthoritativeSession C T) : Prop where
  ack : s.ackSeqNum + 1 = s.expectedClientSeq
  sent : s.lastSentAckSeq ≤ s.ackSeqNum
  first : s.pushed = [] → s.lastSentAckSeq < s.ackSeqNum
  last : s.stateHistory.getLast? = s.pushed.getLast?
  clean : s.dirty = false → ∀ e, s.pushed.getLast? = some e →
    (TerminalState.updateAndGetState s.termState).2 = .ok e.2

theorem tracked_new {sid : ℕ} {codec : C} {c : ℕ} {addr : SocketAddr} {cols rows : ℕ} {now : Instant}
    {s : AuthoritativeSession C T} (hc : 1 ≤ c)
    (h : AuthoritativeSession.new sid codec c addr cols rows now = .ok s) : Tracked s := by
  obtain ⟨t, -, h⟩ := bind_eq_ok.mp h
  cases h
  exact ⟨rfl, Nat.zero_le _, fun _ => hc, rfl, by simp⟩

variable {s s' : AuthoritativeSession C T}

/-- A session with the same scheduler and window. -/
theorem Tracked.congr (h : Tracked s) (h₁ : s'.ackSeqNum = s.ackSeqNum)
    (h₂ : s'.expectedClientSeq = s.expectedClientSeq) (h₃ : s'.lastSentAckSeq = s.lastSentAckSeq)
    (h₄ : s'.stateHistory = s.stateHistory) (h₅ : s'.pushed = s.pushed)
    (h₆ : s'.dirty = false → s.dirty = false ∧ s'.termState = s.termState) : Tracked s' := by
  refine ⟨by rw [h₁, h₂]; exact h.ack, by rw [h₁, h₃]; exact h.sent, ?_, by rw [h₄, h₅]; exact h.last,
    fun hd e he => ?_⟩
  · rw [h₁, h₃, h₅]
    exact h.first
  · obtain ⟨hd, ht⟩ := h₆ hd
    rw [ht]
    exact h.clean hd e (h₅ ▸ he)

theorem Tracked.calmed (h : Tracked s) (now : Instant) : Tracked (s.calmed now) := by
  obtain ⟨h₁, h₂, h₃, h₄, h₅⟩ := calmed_same s now
  have hw := calmed_sameWindow s now
  exact h.congr hw.ackSeqNum hw.expectedClientSeq h₅ h₂ h₃ fun hd => ⟨h₄ ▸ hd, h₁⟩

theorem getLast?_capHistory (history : List (ℕ × GridState)) (e : ℕ × GridState) :
    (capHistory (history ++ [e])).getLast? = some e := by
  unfold capHistory
  split
  · rename_i hlen
    cases history with
    | nil => simp at hlen
    | cons a rest => simp
  · simp

/-- A frame that is queued is the last one pushed. -/
theorem Tracked.queueFrame (h : Tracked s) {g : GridState}
    (hg : (TerminalState.updateAndGetState s.termState).2 = .ok g) (now : Instant) (echo : Bool) :
    Tracked (s.queueFrame g now echo).1 := by
  have hpushed : (s.queueFrame g now echo).1.pushed = s.pushed ++ [(s.seqNum + 1, g)] := rfl
  refine ⟨h.ack, le_rfl, ?_, ?_, fun _ e he => ?_⟩
  · simp [hpushed]
  · rw [hpushed, List.getLast?_concat]
    exact getLast?_capHistory _ _
  · rw [hpushed, List.getLast?_concat] at he
    cases he
    exact hg

/-- STEP: whatever `check_sync` does, and without a job the acks sent are the same. -/
theorem Tracked.checkSync (hstable : TerminalState.Stable T) (hok : TerminalState.Compiles T)
    (h : Tracked s) (now : Instant) (echo : Bool) :
    Tracked (s.checkSync now echo).1 ∧
      (jobsOf (s.checkSync now echo).2 = [] →
        (s.checkSync now echo).1.lastSentAckSeq = s.lastSentAckSeq) := by
  obtain ⟨-, hhist, hpush, -, hlast⟩ := calmed_same s now
  have hc := h.calmed now
  rcases checkSync_cases s now echo with hs | ⟨-, hs⟩ | ⟨-, t, ⟨e, hu, hs⟩ | ⟨g, hu, ⟨hid, hack, hs⟩ | hs⟩⟩
  · rw [hs]
    exact ⟨h, fun _ => rfl⟩
  · rw [hs]
    exact ⟨hc, fun _ => hlast⟩
  · obtain ⟨t', g, hg⟩ := hok s.termState
    rw [hg] at hu
    cases hu
  · rw [hs]
    refine ⟨⟨hc.ack, hc.sent, hc.first, hc.last, fun _ e he => ?_⟩, fun _ => hlast⟩
    have he' : s.stateHistory.getLast? = some e := by rw [h.last, ← hpush]; exact he
    have hgrid : e.2 = g := by simpa [isIdentical, he'] using hid
    rw [hgrid]
    exact hstable _ _ _ hu
  · rw [hs]
    refine ⟨?_, fun hjobs => by simp [AuthoritativeSession.queueFrame, jobsOf] at hjobs⟩
    -- the compiled terminal is recorded together with its grid
    have hg : (TerminalState.updateAndGetState t).2 = .ok g := hstable _ _ _ hu
    exact (Tracked.queueFrame (s := { s.calmed now with termState := t, dirty := true })
      ⟨hc.ack, hc.sent, hc.first, hc.last, fun hd => by cases hd⟩ hg now echo)

/-! ### Turns -/

variable [PacketCodec C]

/-- One turn of the processing loop pushes nothing, and dirties the screen it changes. -/
theorem process_screen {payload : ClientPayload} {r : Except Error (List (SessionAction C))}
    (h : s.process payload = some (s', r)) : s'.pushed = s.pushed ∧
      (s'.dirty = false → s.dirty = false ∧ s'.termState = s.termState) := by
  rcases process_inv h with ⟨res, heq, -⟩ | ⟨_, _, _, rfl, -, hdirty⟩
  · obtain ⟨rfl, -⟩ := Prod.mk.inj heq
    exact ⟨rfl, fun hd => ⟨hd, rfl⟩⟩
  · exact ⟨rfl, hdirty⟩

theorem Tracked.processAll (h : Tracked s) {packets : List (ℕ × ClientPayload)}
    {actions : List (SessionAction C)} {r : Except Error (List (SessionAction C))}
    (hp : processAll packets s actions = some (s', r)) : Tracked s' :=
  processAll_induct (R := fun s s' => Tracked s → Tracked s') (fun _ h => h)
    (fun _ _ _ h₁ h₂ h => h₂ (h₁ h)) (fun _ _ _ _ hp h => by
      have hpr := process_processed hp
      obtain ⟨hpush, hdirty⟩ := process_screen hp
      exact h.congr hpr.ackSeqNum hpr.expectedClientSeq hpr.lastSentAckSeq hpr.stateHistory hpush
        hdirty) hp h

omit [PacketCodec C] in
/-- The window moves forward, and an ack more is owed. -/
theorem Tracked.advance (h : Tracked s) (ack : ℕ) :
    Tracked (s.advance ack) ∧ s.ackSeqNum < (s.advance ack).ackSeqNum := by
  have hlt := (packetsToProcess_numbers s .ack ack).2
  have hack : (s.advance ack).ackSeqNum = (s.advance ack).expectedClientSeq - 1 := rfl
  have hlast : (s.advance ack).lastSentAckSeq = s.lastSentAckSeq := rfl
  have h₁ := h.ack
  have h₂ := h.sent
  exact ⟨⟨by omega, by omega, fun _ => by omega, h.last, h.clean⟩, by omega⟩

/-- STEP: a turn that is no second handshake keeps the session tracked; if it hands out no job, it sends
    no ack, and a packet that is processed in order is owed one. -/
theorem Tracked.turn (hstable : TerminalState.Stable T) (hok : TerminalState.Compiles T)
    (h : Tracked s) {ev : SessionEvent} {actions : List (SessionAction C)}
    (hreset : s.resets ev = false) (ht : s.turn ev = some (s', actions)) :
    Tracked s' ∧ s.ackSeqNum ≤ s'.ackSeqNum ∧ (jobsOf actions = [] →
      s'.lastSentAckSeq = s.lastSentAckSeq ∧
        (s.takesNext ev = true → s.ackSeqNum < s'.ackSeqNum)) := by
  cases ev with
  | ptyBytes data now =>
    cases ht
    refine ⟨h.congr rfl rfl rfl rfl rfl fun hd => ?_, le_rfl, fun _ => ⟨rfl, fun hn => ?_⟩⟩
    · cases hd
    · cases hn
  | tick now echo =>
    obtain ⟨rfl, rfl⟩ := Prod.mk.inj (Option.some.inj ht)
    obtain ⟨htr, hsent⟩ := h.checkSync hstable hok now echo
    refine ⟨htr, (checkSync_sameWindow s now echo).ackSeqNum.ge, fun hj => ⟨hsent hj, fun hn => ?_⟩⟩
    cases hn
  | packet bytes src now echo =>
    obtain ⟨⟨t, r⟩, hf, heq⟩ := Option.map_eq_some_iff.mp ht
    obtain ⟨rfl, rfl⟩ := Prod.mk.inj heq
    have hheard : Tracked (s.heard src now) := h.congr rfl rfl rfl rfl rfl fun hd => ⟨hd, rfl⟩
    rcases feedPacket_cases hf with ⟨rfl, rfl, hother⟩ | ⟨w, p, st, hopen, hcase⟩
    · refine ⟨h, le_rfl, fun _ => ⟨rfl, fun hn => ?_⟩⟩
      simp only [takesNext] at hn
      split at hn
      · rename_i w p st hopen
        simp [(hother w p st hopen).2] at hn
      · cases hn
    · simp only [resets, takesNext, hopen] at hreset ⊢
      rcases hcase with ⟨h0, hs⟩ | ⟨h0, hsid, hcase⟩
      · rcases feedHandshake_cases hs with ⟨-, rfl, rfl⟩ | ⟨hi, -⟩
        · exact ⟨h, le_rfl, fun _ => ⟨rfl, by simp [h0]⟩⟩
        · simp [h0, hi] at hreset
      · rcases hcase with ⟨htr, hs⟩ | ⟨htr, ⟨hlt, rfl, rfl⟩ | ⟨hgt, rfl, rfl⟩ | ⟨hexp, ho⟩⟩
        · cases hs
          have hnote : Tracked ((s.heard src now).noteAck w.ackSeqNum) :=
            hheard.congr rfl rfl rfl rfl rfl fun hd => ⟨hd, rfl⟩
          obtain ⟨htracked, hsent⟩ := hnote.checkSync hstable hok now echo
          have hw := checkSync_sameWindow ((s.heard src now).noteAck w.ackSeqNum) now echo
          refine ⟨htracked, hw.ackSeqNum.ge, fun hj => ⟨hsent ?_, by simp [htr]⟩⟩
          simpa [actionsOf, jobsOf_append, jobsOf_resendOf] using hj
        · exact ⟨hheard, le_rfl, fun _ => ⟨rfl, by simp [Nat.ne_of_lt hlt]⟩⟩
        · exact ⟨hheard.congr rfl rfl rfl rfl rfl fun hd => ⟨hd, rfl⟩, le_rfl,
            fun _ => ⟨rfl, by simp [Nat.ne_of_gt hgt]⟩⟩
        · obtain ⟨hadv, hlt⟩ := hheard.advance w.ackSeqNum
          rcases feedInOrder_cases ho with ⟨e, hp, rfl⟩ | ⟨u, acts, hp, rfl, rfl⟩
          · have hpr := processAll_processed hp
            have hack : s.ackSeqNum < t.ackSeqNum := by rw [hpr.ackSeqNum]; exact hlt
            exact ⟨hadv.processAll hp, hack.le, fun _ => ⟨hpr.lastSentAckSeq, fun _ => hack⟩⟩
          · have hpr := processAll_processed hp
            have hw := checkSync_sameWindow u now echo
            have hack : s.ackSeqNum < (u.checkSync now echo).1.ackSeqNum := by
              rw [hw.ackSeqNum, hpr.ackSeqNum]
              exact hlt
            obtain ⟨htracked, hsent⟩ := (hadv.processAll hp).checkSync hstable hok now echo
            refine ⟨htracked, hack.le, fun hj => ⟨(hsent ?_).trans hpr.lastSentAckSeq, fun _ => hack⟩⟩
            simpa [actionsOf, jobsOf_append, jobsOf_processAll hp] using hj

/-! ### The tick -/

omit [PacketCodec C] [TerminalState T] in
theorem minInterval_le (s : AuthoritativeSession C T) (now : Instant) : s.minInterval now ≤ millis 150 := by
  unfold minInterval
  split
  · exact le_rfl
  · decide

omit [PacketCodec C] in
/-- A frame is due: the terminal shows another grid than the last one pushed, or an ack is owed. -/
theorem Tracked.not_upToDate (h : Tracked s) {g : GridState}
    (hg : (TerminalState.updateAndGetState s.termState).2 = .ok g)
    (hdue : s.pushed.getLast?.map Prod.snd ≠ some g ∨ s.lastSentAckSeq < s.ackSeqNum) :
    s.upToDate = false ∧
      (isIdentical s.stateHistory g && !decide (s.ackSeqNum > s.lastSentAckSeq)) = false := by
  rcases hdue with hdiff | hack
  · cases hlast : s.pushed.getLast? with
    | none =>
      have hack := h.first (List.getLast?_eq_none_iff.mp hlast)
      exact ⟨by simp [upToDate, hack], by simp [hack]⟩
    | some e =>
      have hne : e.2 ≠ g := by
        intro heq
        exact hdiff (by rw [hlast, ← heq]; rfl)
      refine ⟨?_, by simp [isIdentical, h.last, hlast, hne]⟩
      cases hd : s.dirty with
      | true => simp [upToDate, hd]
      | false =>
        have hclean := h.clean hd e hlast
        rw [hg] at hclean
        exact absurd (Except.ok.inj hclean).symm hne
  · exact ⟨by simp [upToDate, hack], by simp [hack]⟩

omit [PacketCodec C] in
/-- DUE: 150 ms after the last frame, a tick hands out what is owed, as one job with the grid the
    terminal shows. -/
theorem Tracked.onTick_due (h : Tracked s) {g : GridState}
    (hg : (TerminalState.updateAndGetState s.termState).2 = .ok g)
    (hdue : s.pushed.getLast?.map Prod.snd ≠ some g ∨ s.lastSentAckSeq < s.ackSeqNum) {now : Instant}
    (hnow : s.lastSyncTime + millis 150 ≤ now) (echo : Bool) :
    ∃ job, (s.onTick now echo).2 = [.offloadDiffJob job s.currentClientAddr] ∧ job.currentState = g := by
  obtain ⟨hterm, hhist, hpush, hdirty, hlast⟩ := calmed_same s now
  have hw := calmed_sameWindow s now
  obtain ⟨hup, hskip⟩ := (h.calmed now).not_upToDate (g := g) (by rw [hterm]; exact hg)
    (by rw [hpush, hlast, hw.ackSeqNum]; exact hdue)
  have hthrottled : s.throttled now = false := by
    have := minInterval_le s now
    unfold throttled
    rw [Bool.and_eq_false_iff, decide_eq_false_iff_not, decide_eq_false_iff_not]
    exact .inr (Nat.not_lt.mpr (this.trans (Nat.le_sub_of_add_le' hnow)))
  obtain ⟨t, hu⟩ : ∃ t, TerminalState.updateAndGetState s.termState = (t, .ok g) := ⟨_, Prod.ext rfl hg⟩
  rw [onTick, AuthoritativeSession.checkSync, hthrottled, if_neg Bool.false_ne_true, hup,
    if_neg Bool.false_ne_true, syncGrid, hterm, hu]
  dsimp only
  rw [hskip, if_neg Bool.false_ne_true, ← hw.currentClientAddr]
  exact ⟨_, rfl, rfl⟩

end Tracked

end AuthoritativeSession

end Rumsh.Server
