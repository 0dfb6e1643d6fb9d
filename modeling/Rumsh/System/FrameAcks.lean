import Rumsh.Client.Timers
import Rumsh.Server.Emits
import Rumsh.Server.TextTerminal

/-! Which frames the client acknowledges.

    `ack_seq_num` is raised before the payload is looked at. A frame whose reference is not held, or
    whose patch is refused, is therefore acknowledged although the client has no such grid, and the
    server then sends its next frame as a patch of it. -/

namespace Rumsh.System
open Rumsh.Schemes Rumsh.Protocol Rumsh.Client Rumsh.Server

/-- A watched session, and the accepted packets that were no frames. -/
structure Acking (C : Type) where
  watched : Watched C
  nonFrames : List ℕ

namespace Acking
variable {C : Type} [PacketCodec C]

def start (session : MirrorSession C) : Acking C := ⟨.start session, []⟩

def session (w : Acking C) : MirrorSession C := w.watched.session

/-- The number of an accepted packet that is no frame. -/
def nonFrameBy (s : MirrorSession C) (ev : MirrorEvent) : List ℕ :=
  match s.arrival ev with
  | some (_, .frame _) => []
  | some (q, _) => if s.ackSeqNum < q then [q] else []
  | none => []

def step (w : Acking C) (ev : MirrorEvent) : Option (Acking C) :=
  (w.watched.step ev).map fun watched =>
    { watched, nonFrames := w.nonFrames ++ nonFrameBy w.session ev }

/-- The number is 0, that of a packet without a frame, or that of a frame that was put into the
    history. -/
def Holds (w : Acking C) (n : ℕ) : Prop :=
  n = 0 ∨ n ∈ w.nonFrames ∨ ∃ e ∈ w.session.applied, e.1 = n

/-- With this ack a server whose history has frames only makes its next frame one the client can
    apply: a full one, or a patch of a grid in the client's history. -/
def Heals (w : Acking C) (ack : ℕ) : Prop :=
  ∀ (T : Type) [TerminalState T] (server : AuthoritativeSession C T) (now : Instant) (echo : Bool),
    server.clientAckSeq = ack → (∀ e ∈ server.stateHistory, 0 < e.1 ∧ e.1 ∉ w.nonFrames) →
    ∀ job ∈ jobsOf (server.checkSync now echo).2,
      job.refSeq = 0 ∨ ∃ e ∈ w.session.stateHistory, e.1 = job.refSeq

/-- After the event the mark is a number the client holds, and so is that of every ack it sealed; and
    the server's answer to such an ack can be applied. -/
def AcksHeld (w : Acking C) (ev : MirrorEvent) : Prop :=
  ∀ w', w.step ev = some w' → w'.Holds w'.session.ackSeqNum ∧
    ∀ c ∈ w'.session.sealedCalls.drop w.session.sealedCalls.length, c.2.2 = .ack →
      w'.Holds c.2.1 ∧ w'.Heals c.2.1

/-- A new frame that arrives has its reference in the history, or is a full one, and is in range. -/
def Applicable (w : Acking C) (ev : MirrorEvent) : Prop :=
  ∀ q update, w.session.arrival ev = some (q, .frame update) → w.session.ackSeqNum < q →
    (w.session.gridOf (.frame update)).isSome

instance (w : Acking C) (ev : MirrorEvent) : Decidable (Applicable w ev) :=
  match h : w.session.arrival ev with
  | some (q, .frame update) =>
    decidable_of_iff (w.session.ackSeqNum < q → (w.session.gridOf (.frame update)).isSome)
      ⟨fun hg q' update' h' => by cases h.symm.trans h'; exact hg, fun hg => hg q update h⟩
  | some (_, .keepAlive) => .isTrue fun _ _ h' => nomatch h.symm.trans h'
  | some (_, .shutdown) => .isTrue fun _ _ h' => nomatch h.symm.trans h'
  | some (_, .handshakeAck _) => .isTrue fun _ _ h' => nomatch h.symm.trans h'
  | none => .isTrue fun _ _ h' => nomatch h.symm.trans h'

/-- What holds along every run. -/
structure Ordered (w : Acking C) : Prop where
  marked : w.watched.Marked
  nonFrames : ∀ n ∈ w.nonFrames, n ∈ w.watched.unapplied

variable {w w' : Acking C} {ev : MirrorEvent}

/-- INVERSION: the event accepts nothing, a packet without a frame, a frame that is applied, or one that
    is not. -/
theorem step_cases (hs : w.step ev = some w') :
    (w'.session.ackSeqNum = w.session.ackSeqNum ∧ w'.session.applied = w.session.applied ∧
      w'.nonFrames = w.nonFrames ∧ Applicable w ev) ∨
    ∃ q, w.session.ackSeqNum < q ∧ w'.session.ackSeqNum = q ∧
      ((w'.nonFrames = w.nonFrames ++ [q] ∧ w'.session.applied = w.session.applied ∧
        Applicable w ev) ∨
      (w'.nonFrames = w.nonFrames ∧ (∃ g, w'.session.applied = w.session.applied ++ [(q, g)]) ∧
        Applicable w ev) ∨
      (w'.nonFrames = w.nonFrames ∧ w'.session.applied = w.session.applied ∧ ¬ Applicable w ev)) := by
  obtain ⟨watched, hw, rfl⟩ := Option.map_eq_some_iff.mp hs
  obtain ⟨s', hs', rfl⟩ := Option.map_eq_some_iff.mp hw
  rcases MirrorSession.step_cases hs' with ⟨hack, -, happ, hle⟩ | ⟨q, p, harr, hlt, hack, hcase⟩
  · refine .inl ⟨hack, happ, ?_, fun q update harr hlt => absurd (hle _ _ harr) (Nat.not_le.mpr hlt)⟩
    have hnone : nonFrameBy w.session ev = [] := by
      unfold nonFrameBy
      split
      · rfl
      · rename_i harr
        exact if_neg (Nat.not_lt.mpr (hle _ _ harr))
      · rfl
    simp [hnone]
  · refine .inr ⟨q, hlt, hack, ?_⟩
    -- whether the payload is a frame decides the list, whether it patches decides the history
    have hother : ∀ update, w.session.arrival ev = some (q, .frame update) →
        (Applicable w ev ↔ (w.session.gridOf (.frame update)).isSome) := by
      intro update hframe
      refine ⟨fun h => h q update hframe hlt, fun h q' update' harr' _ => ?_⟩
      rw [hframe] at harr'
      cases harr'
      exact h
    cases p with
    | frame update =>
      have hnone : nonFrameBy w.session ev = [] := by
        have harr' : w.session.arrival ev = some (q, .frame update) := harr
        simp [nonFrameBy, harr']
      have hsame : w.nonFrames ++ nonFrameBy w.session ev = w.nonFrames := by
        rw [hnone, List.append_nil]
      rcases hcase with ⟨hg, -, happ⟩ | ⟨g, hg, -, happ⟩
      · refine .inr (.inr ⟨hsame, happ, fun h => ?_⟩)
        have hsome := (hother update harr).mp h
        rw [show w.session.gridOf (.frame update) = none from hg] at hsome
        cases hsome
      · refine .inr (.inl ⟨hsame, ⟨g, happ⟩, (hother update harr).mpr ?_⟩)
        rw [show w.session.gridOf (.frame update) = some g from hg]
        rfl
    | _ =>
      have happ : s'.applied = w.watched.session.applied := by
        rcases hcase with ⟨-, -, happ⟩ | ⟨g, hg, -⟩
        · exact happ
        · cases hg
      refine .inl ⟨?_, happ, fun q' update harr' => ?_⟩
      · have hone : nonFrameBy w.session ev = [q] := by
          unfold nonFrameBy session
          rw [harr]
          exact if_pos hlt
        simp [hone]
      · have hne := harr.symm.trans harr'
        cases hne

omit [PacketCodec C] in
theorem ordered_start (session : MirrorSession C) (hack : session.ackSeqNum = 0)
    (happ : session.applied = []) (hhist : session.stateHistory = []) : Ordered (start session) :=
  ⟨Watched.marked_start session hack happ hhist, fun _ h => nomatch h⟩

/-- STEP: what was accepted stays in order. -/
theorem Ordered.step (h : Ordered w) (hs : w.step ev = some w') : Ordered w' := by
  obtain ⟨watched, hw, rfl⟩ := Option.map_eq_some_iff.mp hs
  refine ⟨h.marked.step hw, fun n hn => ?_⟩
  obtain ⟨s', -, rfl⟩ := Option.map_eq_some_iff.mp hw
  rcases List.mem_append.mp hn with hn | hn
  · exact List.mem_append_left _ (h.nonFrames n hn)
  · refine List.mem_append_right _ ?_
    unfold nonFrameBy at hn
    unfold Watched.unappliedBy
    split at hn
    · cases hn
    · rename_i q p hne harr
      rw [show w.watched.session.arrival ev = some (q, p) from harr]
      split at hn
      · rename_i hlt
        have hnone : w.watched.session.gridOf p = none := by
          cases p with
          | frame update => exact absurd rfl (hne update)
          | _ => rfl
        dsimp only
        rw [if_pos ⟨hlt, by rw [hnone]; rfl⟩]
        exact hn
      · cases hn
    · cases hn

omit [PacketCodec C] in
/-- Everything held is at or below the mark. -/
theorem Ordered.le_mark (h : Ordered w) {n : ℕ} (hn : w.Holds n) : n ≤ w.session.ackSeqNum := by
  rcases hn with rfl | hn | ⟨e, he, rfl⟩
  · exact Nat.zero_le _
  · exact h.marked.unapplied n (h.nonFrames n hn)
  · exact h.marked.applied e he

/-- STEP: after an applicable event the mark is held. -/
theorem holds_step (hmark : w.Holds w.session.ackSeqNum) (happ : Applicable w ev)
    (hs : w.step ev = some w') : w'.Holds w'.session.ackSeqNum := by
  rcases step_cases hs with ⟨hack, hsame, hnon, -⟩ | ⟨q, -, hack, hcase⟩
  · unfold Holds
    rw [hack, hsame, hnon]
    exact hmark
  · rw [hack]
    rcases hcase with ⟨hnon, -⟩ | ⟨-, ⟨g, hnew⟩, -⟩ | ⟨-, -, hnot⟩
    · exact .inr (.inl (by simp [hnon]))
    · exact .inr (.inr ⟨(q, g), by simp [hnew], rfl⟩)
    · exact absurd happ hnot

/-- STEP: the mark of a frame that cannot be applied is not held. -/
theorem Ordered.applicable (h : Ordered w) (hs : w.step ev = some w')
    (hmark : w'.Holds w'.session.ackSeqNum) : Applicable w ev := by
  rcases step_cases hs with ⟨-, -, -, happ⟩ | ⟨q, hlt, hack, ⟨-, -, happ⟩ | ⟨-, -, happ⟩ | ⟨hnon, hsame, -⟩⟩
  · exact happ
  · exact happ
  · exact happ
  · have hold : w.Holds q := by
      unfold Holds at hmark ⊢
      rw [hack, hnon, hsame] at hmark
      exact hmark
    exact absurd (h.le_mark hold) (Nat.not_le.mpr hlt)

/-- A held mark heals: the server has no frame of that number, or the client has it as its newest. -/
theorem Ordered.heals (h : Ordered w) (hmark : w.Holds w.session.ackSeqNum) :
    w.Heals w.session.ackSeqNum := by
  intro T _ server now echo hack hhist job hjob
  have hj := (AuthoritativeSession.checkSync_emits server now echo).jobs job hjob
  cases href : job.refState with
  | none => exact .inl (hj.full href)
  | some g =>
    obtain ⟨hseq, hmem, -⟩ := hj.delta g href
    rw [(AuthoritativeSession.checkSync_emits server now echo).clientAckSeq, hack] at hseq
    obtain ⟨hpos, hframe⟩ := hhist _ hmem
    rw [hseq] at hpos hframe ⊢
    rcases hmark with h0 | hn | ⟨e, he, heq⟩
    · omega
    · exact absurd hn hframe
    · -- the frame that raised the mark is the last one applied
      obtain ⟨last, hlast⟩ : ∃ last, w.watched.session.applied.getLast? = some last := by
        cases hl : w.watched.session.applied.getLast? with
        | none =>
          have hnil : w.session.applied = [] := List.getLast?_eq_none_iff.mp hl
          rw [hnil] at he
          cases he
        | some last => exact ⟨last, rfl⟩
      have hnew : w.watched.session.stateHistory.getLast? = some last := h.marked.newest.trans hlast
      have hle : e.1 ≤ last.1 := h.marked.le_newest he hnew
      have hge : last.1 ≤ w.session.ackSeqNum := h.marked.applied last (List.mem_of_getLast? hlast)
      exact .inr ⟨last, List.mem_of_getLast? hnew, Nat.le_antisymm hge (heq ▸ hle)⟩

/-- STEP: what the event acknowledges is held, if the mark was and the event is applicable. -/
theorem Ordered.acksHeld (h : Ordered w) (hmark : w.Holds w.session.ackSeqNum)
    (happ : Applicable w ev) : AcksHeld w ev := by
  intro w' hs
  have hmark' := holds_step hmark happ hs
  have hheals := (h.step hs).heals hmark'
  obtain ⟨watched, hw, rfl⟩ := Option.map_eq_some_iff.mp hs
  obtain ⟨s', hs', rfl⟩ := Option.map_eq_some_iff.mp hw
  refine ⟨hmark', fun c hc _ => ?_⟩
  obtain ⟨calls, hcalls, hacks⟩ := MirrorSession.step_calls hs'
  have hnew : s'.sealedCalls.drop w.session.sealedCalls.length = calls := by
    rw [hcalls]
    exact List.drop_left
  have hack : c.2.1 = s'.ackSeqNum := hacks c (hnew ▸ hc)
  rw [hack]
  exact ⟨hmark', hheals⟩

/-- RUN: the client acknowledges only what it holds, and its acks heal, exactly if every new frame that
    arrives is a full one or a patch in range of a grid in the history. -/
theorem acks_held_iff {sid : ℕ} {codec : C} {startServerSeq cols rows : ℕ} {overlay : Bool}
    {now : Instant} {events : List MirrorEvent} {w : Acking C}
    (hrun : runFrom step (start (.new sid codec startServerSeq cols rows overlay now)) events = some w) :
    StepsMeet step AcksHeld (start (.new sid codec startServerSeq cols rows overlay now)) events ↔
      StepsMeet step Applicable (start (.new sid codec startServerSeq cols rows overlay now)) events := by
  have hord : Ordered (start (.new sid codec startServerSeq cols rows overlay now) : Acking C) :=
    ordered_start _ rfl rfl rfl
  have hzero : (start (.new sid codec startServerSeq cols rows overlay now) : Acking C).Holds 0 := .inl rfl
  constructor
  · intro h
    refine StepsMeet.imp_of_run (fun w ev w' hw hP hs => ?_) hord h hrun
    exact ⟨hw.step hs, hw.applicable hs (hP w' hs).1⟩
  · intro h
    have hstep : ∀ (w : Acking C) ev w', Ordered w ∧ w.Holds w.session.ackSeqNum → Applicable w ev →
        w.step ev = some w' →
        (Ordered w' ∧ w'.Holds w'.session.ackSeqNum) ∧ AcksHeld w ev := by
      intro w ev w' hw hP hs
      exact ⟨⟨hw.1.step hs, holds_step hw.2 hP hs⟩, hw.1.acksHeld hw.2 hP⟩
    exact StepsMeet.imp_of_run hstep ⟨hord, hzero⟩ h hrun

/-- A full frame is applied and acknowledged. -/
theorem acks_held_full_frame :
    ∃ (d : Bytes) (w : Acking (ChaChaCodec Bincode.crates)),
      MirrorSession.oneCell.codec.sealServer 1 1 (.frame Watched.firstFrame) = .ok [d] ∧
      runFrom step (start .oneCell) [.recv d (millis 50)] = some w ∧ w.session.ackSeqNum = 1 ∧
      StepsMeet step AcksHeld (start .oneCell) [.recv d (millis 50)] := by
  obtain ⟨d, w, hd, hrun, hack, happ⟩ : ∃ (d : Bytes) (w : Acking (ChaChaCodec Bincode.crates)),
      MirrorSession.oneCell.codec.sealServer 1 1 (.frame Watched.firstFrame) = .ok [d] ∧
      runFrom step (start .oneCell) [.recv d (millis 50)] = some w ∧ w.session.ackSeqNum = 1 ∧
      StepsMeet step Applicable (start .oneCell) [.recv d (millis 50)] :=
    ⟨_, _, rfl, rfl, rfl, by decide +kernel⟩
  exact ⟨d, w, hd, hrun, hack, (acks_held_iff hrun).mpr happ⟩

/-- A server that has just sent frame 6 and read an ack of it. -/
def ackedServer : AuthoritativeSession (ChaChaCodec Bincode.crates) TextTerminal :=
  { sessionId := 2 ^ 32, seqNum := 6, ackSeqNum := 1, expectedClientSeq := 2, outOfOrderPackets := ∅
    clientAckSeq := 6, lastSentAckSeq := 1, stateHistory := [(6, GridState.blank 1 1)]
    codec := MirrorSession.oneCell.codec, currentClientAddr := ⟨0, 0⟩, lastRecvTime := 0, lastSyncTime := 0
    lastPtyBytesTime := 0, ptyBytesAcc := 0, dirty := true
    termState := TextTerminal.clear 1 1 (by decide), pty := [], sealedCalls := [], pushed := [] }

/-- Frame 6, a patch of a frame 5 the client never had, is dropped, but acknowledged at once with 6. A
    server that has frame 6 in its history answers that ack by another patch the client cannot apply. -/
theorem missing_reference_acked :
    ∃ (d : Bytes) (w : Acking (ChaChaCodec Bincode.crates)),
      MirrorSession.oneCell.codec.sealServer 6 1 (.frame { Watched.firstFrame with refSeq := 5 }) =
        .ok [d] ∧
      runFrom step (start .oneCell) [.recv d (millis 50)] = some w ∧
      w.session.sealedCalls = [(1 <<< 63 ||| 1, 6, .ack)] ∧ w.session.applied = [] ∧
      ¬ w.Holds 6 ∧ ¬ w.Heals 6 ∧
      ¬ StepsMeet step AcksHeld (start .oneCell) [.recv d (millis 50)] := by
  obtain ⟨d, w, hd, hrun, hcalls, happ, hhist, hnon, hack⟩ :
      ∃ (d : Bytes) (w : Acking (ChaChaCodec Bincode.crates)),
        MirrorSession.oneCell.codec.sealServer 6 1 (.frame { Watched.firstFrame with refSeq := 5 }) =
          .ok [d] ∧
        runFrom step (start .oneCell) [.recv d (millis 50)] = some w ∧
        w.session.sealedCalls = [(1 <<< 63 ||| 1, 6, .ack)] ∧ w.session.applied = [] ∧
        w.session.stateHistory = [] ∧ w.nonFrames = [] ∧ w.session.ackSeqNum = 6 :=
    ⟨_, _, rfl, rfl, rfl, rfl, rfl, rfl, rfl⟩
  have hnot : ¬ w.Holds 6 := by
    unfold Holds
    rw [happ, hnon]
    simp
  refine ⟨d, w, hd, hrun, hcalls, happ, hnot, fun hheals => ?_, fun hmeet => ?_⟩
  · obtain ⟨job, hjob, href⟩ : ∃ job ∈ jobsOf (ackedServer.checkSync (secs 1) false).2,
        job.refSeq = 6 := ⟨_, List.mem_singleton.mpr rfl, rfl⟩
    rcases hheals TextTerminal ackedServer (secs 1) false rfl (by simp [hnon, ackedServer]) job hjob with
      h | ⟨e, he, -⟩
    · rw [href] at h
      cases h
    · rw [hhist] at he
      cases he
  · obtain ⟨w', hw', h⟩ := Option.bind_eq_some_iff.mp hrun
    cases h
    exact hnot (hack ▸ (hmeet.1 _ hw').1)

end Acking

end Rumsh.System
