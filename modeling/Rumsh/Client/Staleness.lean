import Rumsh.Protocol.Bincode
import Rumsh.Client.Steps

/-! Which frames the client drops as stale.

    Frames and all other packets of the server share one sequence and one high-water mark, `ack_seq_num`.
    A frame below the mark is dropped, whatever raised the mark. So a frame is dropped without a newer
    frame on the screen exactly when another packet overtook it. -/

namespace Rumsh.Client
open Rumsh.Schemes Rumsh.Protocol

namespace MirrorSession
variable {C : Type} [PacketCodec C]

/-! ### What a datagram does to the history -/

/-- The packet a datagram completes. -/
def arrival (s : MirrorSession C) : MirrorEvent → Option (ℕ × ServerPayload)
  | .recv bytes _ =>
    match (PacketCodec.openServer s.codec bytes).2 with
    | .ok (some (packet, payload, _)) => some (packet.seqNum, payload)
    | _ => none
  | _ => none

/-- The grid a frame makes of its reference, if the reference is held and the frame is in range. -/
def gridOf (s : MirrorSession C) : ServerPayload → Option GridState
  | .frame update => (s.baseFor update).bind fun base =>
    match base.patch update with
    | some (g, .ok ()) => some g
    | _ => none
  | _ => none

variable {s s' : MirrorSession C} {ev : MirrorEvent}

omit [PacketCodec C] in
theorem gridOf_congr {payload : ServerPayload} (h : s'.stateHistory = s.stateHistory) :
    s'.gridOf payload = s.gridOf payload := by
  cases payload <;> simp [gridOf, baseFor, h]

theorem feedPayload_cases {seq : ℕ} {payload : ServerPayload} {now : Instant}
    {r : Except Error (List ClientAction)} (h : s.feedPayload seq payload now = some (s', r)) :
    s'.ackSeqNum = s.ackSeqNum ∧
    ((s.gridOf payload = none ∧ s'.stateHistory = s.stateHistory ∧ s'.applied = s.applied) ∨
    ∃ g, s.gridOf payload = some g ∧ s'.stateHistory = capHistory (s.stateHistory ++ [(seq, g)]) ∧
      s'.applied = s.applied ++ [(seq, g)]) := by
  cases payload with
  | keepAlive => cases h; exact ⟨rfl, .inl ⟨rfl, rfl, rfl⟩⟩
  | shutdown => cases h; exact ⟨rfl, .inl ⟨rfl, rfl, rfl⟩⟩
  | handshakeAck sid => cases h; exact ⟨rfl, .inl ⟨rfl, rfl, rfl⟩⟩
  | frame update =>
    rcases feedFrame_cases h with ⟨hb, hs⟩ | ⟨base, g, hb, ⟨e, hp, rfl, -⟩ | ⟨hp, t, ht, hs⟩⟩
    · exact ⟨hs.ackSeqNum, .inl ⟨by simp [gridOf, hb], hs.stateHistory, hs.applied⟩⟩
    · exact ⟨rfl, .inl ⟨by simp [gridOf, hb, hp], rfl, rfl⟩⟩
    · exact ⟨hs.ackSeqNum.trans ht.ackSeqNum, .inr ⟨g, by simp [gridOf, hb, hp],
        hs.stateHistory.trans ht.stateHistory, hs.applied.trans ht.applied⟩⟩

/-- INVERSION: what an event does to the mark, the history and the log of frames. -/
theorem step_cases (h : s.step ev = some s') :
    (s'.ackSeqNum = s.ackSeqNum ∧ s'.stateHistory = s.stateHistory ∧ s'.applied = s.applied ∧
      ∀ q p, s.arrival ev = some (q, p) → q ≤ s.ackSeqNum) ∨
    ∃ q p, s.arrival ev = some (q, p) ∧ s.ackSeqNum < q ∧ s'.ackSeqNum = q ∧
      ((s.gridOf p = none ∧ s'.stateHistory = s.stateHistory ∧ s'.applied = s.applied) ∨
      ∃ g, s.gridOf p = some g ∧ s'.stateHistory = capHistory (s.stateHistory ++ [(q, g)]) ∧
        s'.applied = s.applied ++ [(q, g)]) := by
  obtain ⟨r, hr⟩ := step_eq_some_iff.mp h
  by_cases hev : ∃ bytes now, ev = .recv bytes now
  · obtain ⟨bytes, now, rfl⟩ := hev
    rcases feedPacket_cases hr with ⟨hnone, rfl, -⟩ | ⟨packet, payload, stats, v, hopen, hn, hcase⟩
    · refine .inl ⟨rfl, rfl, rfl, fun q p hq => ?_⟩
      simp only [arrival] at hq
      split at hq
      · rename_i hopen
        exact absurd hopen (hnone _)
      · cases hq
    · have harr : s.arrival (.recv bytes now) = some (packet.seqNum, payload) := by
        simp [arrival, hopen]
      rcases hcase with ⟨hle, rfl, -⟩ | ⟨hlt, w, hw, hp⟩
      · refine .inl ⟨hn.ackSeqNum, hn.stateHistory, hn.applied, fun q p hq => ?_⟩
        rw [harr] at hq
        cases hq
        exact hle
      · have hhist : w.stateHistory = s.stateHistory := hw.stateHistory.trans hn.stateHistory
        have happ : w.applied = s.applied := hw.applied.trans hn.applied
        obtain ⟨hack, hcase⟩ := feedPayload_cases hp
        rw [gridOf_congr hhist, hhist, happ] at hcase
        exact .inr ⟨packet.seqNum, payload, harr, hlt, hack.trans hw.ackSeqNum, hcase⟩
  · have hs : Sent s s' (outOf r) :=
      turn_sent (fun bytes now heq => hev ⟨bytes, now, heq⟩) (turn_eq_some_iff.mpr ⟨r, hr, rfl⟩)
    refine .inl ⟨hs.ackSeqNum, hs.stateHistory, hs.applied, fun q p hq => ?_⟩
    cases ev with
    | recv bytes now => exact absurd ⟨bytes, now, rfl⟩ hev
    | _ => cases hq

end MirrorSession

/-! ### Watching a run -/

/-- A session, the accepted packets that put no frame on the screen, and the frames delivered while
    their reference was held. -/
structure Watched (C : Type) where
  session : MirrorSession C
  unapplied : List ℕ
  delivered : List (ℕ × GridState)

namespace Watched
variable {C : Type} [PacketCodec C]

def start (session : MirrorSession C) : Watched C := ⟨session, [], []⟩

/-- The number of an accepted packet that is no frame, or one that cannot be applied. -/
def unappliedBy (s : MirrorSession C) (ev : MirrorEvent) : List ℕ :=
  match s.arrival ev with
  | some (q, p) => if s.ackSeqNum < q ∧ (s.gridOf p).isNone then [q] else []
  | none => []

/-- A delivered frame with its grid, accepted or not. -/
def deliveredBy (s : MirrorSession C) (ev : MirrorEvent) : List (ℕ × GridState) :=
  match s.arrival ev with
  | some (q, p) => ((s.gridOf p).map fun g => (q, g)).toList
  | none => []

def step (w : Watched C) (ev : MirrorEvent) : Option (Watched C) :=
  (w.session.step ev).map fun session =>
    { session, unapplied := w.unapplied ++ unappliedBy w.session ev,
      delivered := w.delivered ++ deliveredBy w.session ev }

/-- A frame that arrives now and is dropped as stale has a frame at least as new on the screen. -/
def Justified (w : Watched C) (ev : MirrorEvent) : Prop :=
  ∀ q update, w.session.arrival ev = some (q, .frame update) → q ≤ w.session.ackSeqNum →
    ∃ e ∈ w.session.applied, q ≤ e.1

/-- The newest grid is that of the highest-numbered frame delivered. -/
def Newest (w : Watched C) : Prop :=
  (w.session.stateHistory.getLast? = none ∧ w.delivered = []) ∨
  ∃ e, w.session.stateHistory.getLast? = some e ∧ e ∈ w.delivered ∧ ∀ d ∈ w.delivered, d.1 ≤ e.1

/-- A frame that arrives now was not overtaken: a frame at least as new is on the screen, or all that
    was accepted without being put there has a smaller number. The server numbers from 1. -/
def NotOvertaken (w : Watched C) (ev : MirrorEvent) : Prop :=
  ∀ q update, w.session.arrival ev = some (q, .frame update) →
    (∃ e ∈ w.session.applied, q ≤ e.1) ∨ (0 < q ∧ ∀ n ∈ w.unapplied, n < q)

/-- What holds along every run: the mark is the highest number accepted. -/
structure Marked (w : Watched C) : Prop where
  mark : w.session.ackSeqNum = 0 ∨ w.session.ackSeqNum ∈ w.unapplied ∨
    ∃ e ∈ w.session.applied, e.1 = w.session.ackSeqNum
  unapplied : ∀ n ∈ w.unapplied, n ≤ w.session.ackSeqNum
  applied : ∀ e ∈ w.session.applied, e.1 ≤ w.session.ackSeqNum
  sorted : w.session.applied.Pairwise fun e e' => e.1 < e'.1
  newest : w.session.stateHistory.getLast? = w.session.applied.getLast?

variable {w w' : Watched C} {ev : MirrorEvent}

theorem getLast?_capHistory (history : List (ℕ × GridState)) (e : ℕ × GridState) :
    (MirrorSession.capHistory (history ++ [e])).getLast? = some e := by
  unfold MirrorSession.capHistory
  split
  · rename_i h
    cases history with
    | nil => simp at h
    | cons a rest => simp
  · simp

omit [PacketCodec C] in
theorem marked_start (session : MirrorSession C) (hack : session.ackSeqNum = 0)
    (happ : session.applied = []) (hhist : session.stateHistory = []) : Marked (start session) :=
  ⟨.inl hack, by simp [start], by simp [start, happ], by simp [start, happ], by simp [start, happ, hhist]⟩

/-- STEP: the mark stays the highest number accepted. -/
theorem Marked.step (h : Marked w) (hs : w.step ev = some w') : Marked w' := by
  obtain ⟨s', hs', rfl⟩ := Option.map_eq_some_iff.mp hs
  rcases MirrorSession.step_cases hs' with ⟨hack, hhist, happ, hle⟩ |
    ⟨q, p, harr, hlt, hack, ⟨hg, hhist, happ⟩ | ⟨g, hg, hhist, happ⟩⟩
  · have hnone : unappliedBy w.session ev = [] := by
      unfold unappliedBy
      split
      · rename_i q p harr
        rw [if_neg fun hc => absurd (hle q p harr) (Nat.not_le.mpr hc.1)]
      · rfl
    constructor <;> simp only [hack, hhist, happ, hnone, List.append_nil]
    · exact h.mark
    · exact h.unapplied
    · exact h.applied
    · exact h.sorted
    · exact h.newest
  · have hone : unappliedBy w.session ev = [q] := by simp [unappliedBy, harr, hlt, hg]
    constructor <;> simp only [hack, hhist, happ, hone]
    · exact .inr (.inl (by simp))
    · intro n hn
      rcases List.mem_append.mp hn with hn | hn
      · exact (h.unapplied n hn).trans hlt.le
      · exact (List.mem_singleton.mp hn).le
    · exact fun e he => (h.applied e he).trans hlt.le
    · exact h.sorted
    · exact h.newest
  · have hnone : unappliedBy w.session ev = [] := by simp [unappliedBy, harr, hg]
    constructor <;> simp only [hack, hhist, happ, hnone, List.append_nil]
    · exact .inr (.inr ⟨(q, g), by simp, rfl⟩)
    · exact fun n hn => (h.unapplied n hn).trans hlt.le
    · intro e he
      rcases List.mem_append.mp he with he | he
      · exact (h.applied e he).trans hlt.le
      · rw [List.mem_singleton.mp he]
    · refine List.pairwise_append.mpr ⟨h.sorted, List.pairwise_singleton _ _, fun e he e' he' => ?_⟩
      rw [List.mem_singleton.mp he']
      exact (h.applied e he).trans_lt hlt
    · rw [getLast?_capHistory, List.getLast?_append, List.getLast?_singleton, Option.some_or]

/-- STEP: a drop is justified exactly if the frame was not overtaken. -/
theorem Marked.justified_iff (h : Marked w) : Justified w ev ↔ NotOvertaken w ev := by
  constructor
  · intro hj q update harr
    by_cases hle : q ≤ w.session.ackSeqNum
    · exact .inl (hj q update harr hle)
    · exact .inr ⟨by omega, fun n hn => (h.unapplied n hn).trans_lt (Nat.not_le.mp hle)⟩
  · intro hn q update harr hle
    rcases hn q update harr with he | ⟨hpos, hlt⟩
    · exact he
    · rcases h.mark with h0 | hm | ⟨e, he, heq⟩
      · omega
      · exact absurd (hlt _ hm) (Nat.not_lt.mpr hle)
      · exact ⟨e, he, heq ▸ hle⟩

omit [PacketCodec C] in
/-- The last frame applied is the highest. -/
theorem Marked.le_newest (h : Marked w) {e e' : ℕ × GridState} (he : e ∈ w.session.applied)
    (he' : w.session.stateHistory.getLast? = some e') : e.1 ≤ e'.1 := by
  rw [h.newest] at he'
  obtain ⟨pre, hpre⟩ := List.getLast?_eq_some_iff.mp he'
  have hsort := h.sorted
  rw [hpre] at he hsort
  rcases List.mem_append.mp he with he | he
  · exact ((List.pairwise_append.mp hsort).2.2 e he e' (List.mem_singleton.mpr rfl)).le
  · rw [List.mem_singleton.mp he]

/-- STEP: while every drop is justified, the newest grid is that of the highest frame delivered. -/
theorem Newest.step (hn : Newest w) (h : Marked w) (hj : Justified w ev) (hs : w.step ev = some w') :
    Newest w' := by
  obtain ⟨s', hs', rfl⟩ := Option.map_eq_some_iff.mp hs
  rcases MirrorSession.step_cases hs' with ⟨hack, hhist, happ, hle⟩ |
    ⟨q, p, harr, hlt, hack, ⟨hg, hhist, happ⟩ | ⟨g, hg, hhist, happ⟩⟩
  · -- nothing was accepted; a frame that was delivered is not newer than the one on the screen
    unfold Newest
    simp only [hhist]
    have hdel : deliveredBy w.session ev = [] ∨ ∃ d, deliveredBy w.session ev = [d] ∧
        ∃ e ∈ w.session.applied, d.1 ≤ e.1 := by
      unfold deliveredBy
      split
      · rename_i q p harr
        cases hg : w.session.gridOf p with
        | none => exact .inl rfl
        | some g =>
          cases p with
          | frame update => exact .inr ⟨(q, g), rfl, hj q update harr (hle q _ harr)⟩
          | _ => cases hg
      · exact .inl rfl
    rcases hdel with hdel | ⟨d, hdel, e, he, hde⟩
    · simp only [hdel, List.append_nil]
      exact hn
    · rw [hdel]
      rcases hn with ⟨hnone, -⟩ | ⟨e', hlast, hmem, hmax⟩
      · rw [h.newest, List.getLast?_eq_none_iff] at hnone
        rw [hnone] at he
        cases he
      · refine .inr ⟨e', hlast, List.mem_append_left _ hmem, fun d' hd' => ?_⟩
        rcases List.mem_append.mp hd' with hd' | hd'
        · exact hmax d' hd'
        · rw [List.mem_singleton.mp hd']
          exact hde.trans (h.le_newest he hlast)
  · have hdel : deliveredBy w.session ev = [] := by simp [deliveredBy, harr, hg]
    unfold Newest
    simp only [hhist, hdel, List.append_nil]
    exact hn
  · have hdel : deliveredBy w.session ev = [(q, g)] := by simp [deliveredBy, harr, hg]
    unfold Newest
    simp only [hhist, hdel]
    refine .inr ⟨(q, g), getLast?_capHistory _ _, by simp, fun d hd => ?_⟩
    rcases List.mem_append.mp hd with hd | hd
    · rcases hn with ⟨-, hnil⟩ | ⟨e, hlast, -, hmax⟩
      · rw [hnil] at hd
        cases hd
      · have he : e ∈ w.session.applied := List.mem_of_getLast? (h.newest ▸ hlast)
        exact ((hmax d hd).trans (h.applied e he)).trans hlt.le
    · rw [List.mem_singleton.mp hd]

/-- RUN: every stale drop is justified and the screen is always that of the newest frame delivered,
    exactly if no frame is ever overtaken by a packet that is no applied frame. -/
theorem stale_drops_justified_iff (sid : ℕ) (codec : C) (startServerSeq cols rows : ℕ) (overlay : Bool)
    (now : Instant) (events : List MirrorEvent) :
    StepsMeet step (fun w ev => Justified w ev ∧ ∀ w', w.step ev = some w' → Newest w')
        (start (MirrorSession.new sid codec startServerSeq cols rows overlay now)) events ↔
      StepsMeet step NotOvertaken
        (start (MirrorSession.new sid codec startServerSeq cols rows overlay now)) events := by
  have hm : Marked (start (MirrorSession.new sid codec startServerSeq cols rows overlay now)) :=
    marked_start _ rfl rfl rfl
  constructor
  · exact StepsMeet.imp_of_invariant (fun _ _ _ h _ => h.step) (fun _ _ h hP => h.justified_iff.mp hP.1) hm
  · have hstep : ∀ (w : Watched C) ev w', Marked w ∧ Newest w → NotOvertaken w ev →
        w.step ev = some w' → Marked w' ∧ Newest w' := by
      intro w ev w' h hP hs
      exact ⟨h.1.step hs, h.2.step h.1 (h.1.justified_iff.mpr hP) hs⟩
    refine StepsMeet.imp_of_invariant hstep ?_ ⟨hm, .inl ⟨rfl, rfl⟩⟩
    intro w ev h hP
    have hj := h.1.justified_iff.mpr hP
    exact ⟨hj, fun w' hs => h.2.step h.1 hj hs⟩

/-- The first frame of a session of one cell. -/
def firstFrame : FrameUpdate :=
  { refSeq := 0, cols := 1, rows := 1, cursorX := 0, cursorY := 0, cursorVisible := true,
    rowUpdates := [], isEchoEnabled := true }

/-- The reply to a keepalive, packet 2, arrives before frame 1: the frame is dropped as stale although
    no frame was ever shown. -/
theorem keepalive_overtakes_frame :
    ∃ (d₁ d₂ : Bytes) (w : Watched (ChaChaCodec Bincode.crates)),
      let codec := ChaChaCodec.new Bincode.crates (Vector.replicate 32 0) (2 ^ 32)
      codec.sealServer 1 1 (.frame firstFrame) = .ok [d₁] ∧ codec.sealServer 2 1 .keepAlive = .ok [d₂] ∧
      runFrom step (start (MirrorSession.new (2 ^ 32) codec 1 1 1 false 0)) [.recv d₂ 1] = some w ∧
      w.session.arrival (.recv d₁ 2) = some (1, .frame firstFrame) ∧
      1 ≤ w.session.ackSeqNum ∧ ¬ Justified w (.recv d₁ 2) := by
  refine ⟨_, _, _, rfl, rfl, rfl, rfl, by decide, fun hj => ?_⟩
  obtain ⟨e, he, -⟩ := hj 1 firstFrame rfl (by decide)
  cases he

end Watched

end Rumsh.Client
