import Rumsh.Client.Panics
import Rumsh.Client.Repaint

/-! What stands on the screen when nobody types.

    A frame that leaves no batch pending leaves exactly its grid on the mirror, and until the next
    keystroke only another frame changes that. The size of the screen is always that of the last frame. -/

namespace Rumsh.Client
open Rumsh.Schemes Rumsh.Protocol

namespace ClientTerminal
open TerminalFrame LocalEchoEngine
variable {t t' : ClientTerminal} {g : GridState}

/-- The mirror shows the grid, and no batch is pending. -/
structure Displays (t : ClientTerminal) (g : GridState) : Prop where
  cells : t.frame.cellCache = g.cells
  cols : t.frame.cols = g.cols
  rows : t.frame.rows = g.rows
  cursor : t.frame.cursor = (g.cursorX, g.cursorY)
  idle : t.echoEngine.unconfirmedInputs = []

/-- A screen without batches on which nothing has moved. -/
structure Still (t t' : ClientTerminal) : Prop where
  cells : t'.frame.cellCache = t.frame.cellCache
  cols : t'.frame.cols = t.frame.cols
  rows : t'.frame.rows = t.frame.rows
  cursor : t'.frame.cursor = t.frame.cursor
  idle : t'.echoEngine.unconfirmedInputs = []

theorem Displays.still (h : Displays t g) (hs : Still t t') : Displays t' g :=
  ⟨hs.cells.trans h.cells, hs.cols.trans h.cols, hs.rows.trans h.rows, hs.cursor.trans h.cursor, hs.idle⟩

theorem still_of_sameScreen (hidle : t.echoEngine.unconfirmedInputs = []) (hs : SameScreen t t') :
    Still t t' :=
  ⟨hs.cellCache, hs.cols, hs.rows, hs.cursor,
    (congrArg LocalEchoEngine.unconfirmedInputs hs.echoEngine).trans hidle⟩

/-- An ack has nothing to draw again. -/
theorem acknowledge_idle (hidle : t.echoEngine.unconfirmedInputs = []) {ack : ℕ}
    (ha : t.acknowledge ack = some t') : SameScreen t t' := by
  unfold acknowledge reconcileFrame at ha
  rw [hidle] at ha
  obtain rfl := Option.some.inj ha
  refine ⟨?_, rfl, rfl, rfl, rfl, rfl⟩
  show ({ unconfirmedInputs := [], currentEpoch := t.echoEngine.currentEpoch } : LocalEchoEngine) = _
  rw [← hidle]

/-- Nothing is taken back. -/
theorem still_of_abort (hidle : t.echoEngine.unconfirmedInputs = [])
    (ha : t.abortPrediction = some t') : Still t t' := by
  obtain rfl := Option.some.inj ((Console.abortPrediction_idle hidle).symm.trans ha)
  exact ⟨rfl, rfl, rfl, rfl, rfl⟩

/-- A frame under which no batch survives is shown as it is. -/
theorem applyFrame_displays (ht : t.frame.Sized) (hg : g.WellFormed) {seq : ℕ}
    (h : t.applyFrame g seq = some t') (hidle : t'.echoEngine.unconfirmedInputs = []) :
    Displays t' g := by
  obtain ⟨f, e, hf, -, -, heq, -, hkeys, -⟩ := applyFrame_eq ht g seq
  obtain rfl := Option.some.inj (heq.symm.trans h)
  obtain ⟨hcells, hcols, hrows, hcursor⟩ := updateFromGridState_shows ht hg hf
  have hnone : (t.echoEngine.surviving seq).map keyOf = [] := by
    rw [← hkeys, LocalEchoEngine.keys]
    exact congrArg (List.map keyOf) hidle
  rw [hnone] at h ⊢
  exact ⟨hcells, hcols, hrows, hcursor, hidle⟩

theorem applyFrame_rows (ht : t.frame.Sized) {seq : ℕ} (h : t.applyFrame g seq = some t') :
    t'.frame.rows = g.rows := by
  obtain ⟨f, e, hf, -, -, heq, -⟩ := applyFrame_eq ht g seq
  obtain rfl := Option.some.inj (heq.symm.trans h)
  obtain ⟨⟨f₁, hupd, hfirst⟩, -⟩ := updateFromGridState_updates hf
  obtain ⟨_, _, _, hframe⟩ := resizedTo_frame t.frame g
  obtain ⟨_, hcursor, -⟩ := updateCursor_frame f₁ g
  show f.rows = g.rows
  rw [hfirst, hcursor, hupd.shape, hframe]

/-- Only a frame changes the number of rows. -/
theorem perform_rows (ht : t.frame.Sized) {op : MirrorOp} (h : t.perform op = some t')
    (hop : ∀ newState seq, op ≠ .applyFrame newState seq) : t'.frame.rows = t.frame.rows := by
  by_cases hquiet : op.isQuiet = true
  · exact (perform_sameScreen hquiet h).rows
  cases op with
  | predictInput bytes clientSeq =>
    obtain ⟨old, heq⟩ := predictInput_eq ht bytes clientSeq
    obtain rfl := Option.some.inj (heq.symm.trans h)
    rfl
  | acknowledge ack =>
    obtain ⟨e, heq, -⟩ := acknowledge_eq ht ack
    obtain rfl := Option.some.inj (heq.symm.trans h)
    rfl
  | applyFrame newState serverSeq => exact absurd rfl (hop newState serverSeq)
  | abortPrediction =>
    obtain rfl := Option.some.inj ((abortPrediction_eq ht).symm.trans h)
    rfl
  | _ => exact absurd rfl hquiet

end ClientTerminal

namespace MirrorSession
open TerminalFrame ClientTerminal
variable {C : Type} [PacketCodec C] {s s' : MirrorSession C} {ev : MirrorEvent}

/-- What is no datagram and no keystroke leaves the screen alone, or takes the batches back. -/
theorem step_quiet (hrecv : ∀ bytes now, ev ≠ .recv bytes now) (hstdin : ∀ buf now, ev ≠ .stdin buf now)
    (hs : s.step ev = some s') : SameScreen s.mirror s'.mirror ∨
      ∃ u, s.mirror.abortPrediction = some u ∧ SameScreen u s'.mirror := by
  obtain ⟨r, hr⟩ := step_eq_some_iff.mp hs
  cases ev with
  | recv bytes now => exact absurd rfl (hrecv bytes now)
  | stdin buf now => exact absurd rfl (hstdin buf now)
  | winch cols rows now =>
    rcases onWinch_mirror hr with ⟨heq, -⟩ | hmark
    · exact .inl (heq ▸ .refl _)
    · obtain ⟨u, ha, hu⟩ := Option.map_eq_some_iff.mp hmark
      exact .inr ⟨u, ha, hu ▸ ⟨rfl, rfl, rfl, rfl, rfl, rfl⟩⟩
  | tick now => exact .inl (onTick_sameScreen hr)
  | paint dest =>
    cases hr
    refine .inl ?_
    have hsame := consumeUpdates_sameScreen s.mirror dest
    unfold copyFrameIfDirty
    dsimp only
    split <;> exact hsame

/-- What a datagram puts on the screen. -/
theorem recv_screen (h : Fitted s) {bytes : Bytes} {now : Instant}
    (hs : s.step (.recv bytes now) = some s') :
    (s'.applied = s.applied ∧ s'.mirror.frame.rows = s.mirror.frame.rows ∧
      (s.mirror.echoEngine.unconfirmedInputs = [] → Still s.mirror s'.mirror)) ∨
    ∃ q g, s'.applied = s.applied ++ [(q, g)] ∧ s'.mirror.frame.rows = g.rows ∧
      (s'.mirror.echoEngine.unconfirmedInputs = [] → s'.mirror.Displays g) ∧
      (s.mirror.echoEngine.unconfirmedInputs = [] → s'.mirror.echoEngine.unconfirmedInputs = []) := by
  have hsized := h.pending.sized
  obtain ⟨r, hr⟩ := step_eq_some_iff.mp hs
  rcases feedPacket_cases hr with ⟨-, rfl, -⟩ | ⟨packet, payload, stats, -, hopen, -⟩
  · exact .inl ⟨rfl, rfl, fun hidle => ⟨rfl, rfl, rfl, rfl, hidle⟩⟩
  have harr : s.arrival (.recv bytes now) = some (packet.seqNum, payload) := by simp [arrival, hopen]
  obtain ⟨m, t, hm, hsame, hcase⟩ := feedPacket_mirror hopen hr
  have hack : s.mirror.perform (.acknowledge packet.ackSeqNum) = some m := hm
  have ht : t.frame.Sized := hsame.sized (perform_sized hsized hack)
  have hrows : t.frame.rows = s.mirror.frame.rows := hsame.rows.trans (perform_rows hsized hack (by simp))
  rcases hcase with ⟨hno, heq⟩ | ⟨happ, g, u, hg, hu, hecho⟩
  · have happlied : s'.applied = s.applied := by
      rcases step_cases hs with ⟨-, -, happ, -⟩ | ⟨q, p, hq, hlt, -, ⟨-, -, happ⟩ | ⟨g, hg, -⟩⟩
      · exact happ
      · exact happ
      · obtain ⟨rfl, rfl⟩ := Prod.mk.inj (Option.some.inj (harr.symm.trans hq))
        simp [appliesFrame, hlt, hg] at hno
    refine .inl ⟨happlied, heq ▸ hrows, fun hidle => ?_⟩
    rw [heq]
    exact still_of_sameScreen hidle ((acknowledge_idle hidle hm).trans hsame)
  · have hgrid := h.history.gridOf hg
    have happlied : s'.applied = s.applied ++ [(packet.seqNum, g)] := by
      rw [appliesFrame, Bool.and_eq_true, decide_eq_true_eq] at happ
      rcases step_cases hs with ⟨-, -, -, hle⟩ | ⟨q, p, hq, -, -, ⟨hnone, -⟩ | ⟨g', hg', -, happlied⟩⟩
      · exact absurd (hle _ _ harr) (Nat.not_le.mpr happ.1)
      · obtain ⟨rfl, rfl⟩ := Prod.mk.inj (Option.some.inj (harr.symm.trans hq))
        cases hnone.symm.trans hg
      · obtain ⟨rfl, rfl⟩ := Prod.mk.inj (Option.some.inj (harr.symm.trans hq))
        obtain rfl := Option.some.inj (hg.symm.trans hg')
        exact happlied
    refine .inr ⟨packet.seqNum, g, happlied, ?_⟩
    rcases hecho with ⟨-, heq⟩ | ⟨-, hab⟩
    · rw [heq]
      refine ⟨applyFrame_rows ht hu, applyFrame_displays ht hgrid hu, fun hidle => ?_⟩
      have hidle' : t.echoEngine.unconfirmedInputs = [] := by
        rw [((acknowledge_idle hidle hm).trans hsame).echoEngine, hidle]
      have hframe := Console.applyFrame_idle hidle' g packet.seqNum
      rw [hu] at hframe
      obtain ⟨f, -, rfl⟩ := Option.map_eq_some_iff.mp hframe.symm
      rfl
    · obtain ⟨hcells, hcols, hrows', hcursor, hidle⟩ := abortPrediction_applyFrame ht hgrid hu hab
      exact ⟨hrows', fun _ => ⟨hcells, hcols, hrows', hcursor, hidle⟩, fun _ => hidle⟩

/-- INVERSION: what an event does to the screen. Either no frame is applied, and then only a keystroke
    moves anything on a screen without batches; or one is, and it is shown if no batch is left on top. -/
theorem step_screen (h : Fitted s) (hs : s.step ev = some s') :
    (s'.applied = s.applied ∧ s'.mirror.frame.rows = s.mirror.frame.rows ∧
      ((∀ buf now, ev ≠ .stdin buf now) → s.mirror.echoEngine.unconfirmedInputs = [] →
        Still s.mirror s'.mirror)) ∨
    ∃ q g, s'.applied = s.applied ++ [(q, g)] ∧ s'.mirror.frame.rows = g.rows ∧
      (s'.mirror.echoEngine.unconfirmedInputs = [] → s'.mirror.Displays g) ∧
      (s.mirror.echoEngine.unconfirmedInputs = [] → s'.mirror.echoEngine.unconfirmedInputs = []) := by
  by_cases hev : ∃ bytes now, ev = .recv bytes now
  · obtain ⟨bytes, now, rfl⟩ := hev
    exact (recv_screen h hs).imp (fun ⟨happ, hrows, hd⟩ => ⟨happ, hrows, fun _ => hd⟩) id
  · have hrecv : ∀ bytes now, ev ≠ .recv bytes now := fun bytes now heq => hev ⟨bytes, now, heq⟩
    have hsized := h.pending.sized
    refine .inl ⟨?_, ?_, fun hstdin hidle => ?_⟩
    · rcases step_cases hs with ⟨-, -, happ, -⟩ | ⟨q, p, hq, -⟩
      · exact happ
      · cases ev with
        | recv bytes now => exact absurd rfl (hrecv bytes now)
        | _ => cases hq
    · obtain ⟨t, hsame, hsame' | ⟨bytes, -, -, hp⟩ | ⟨u, ha, hsame'⟩⟩ := step_mirror hrecv hs
      · exact hsame'.rows.trans hsame.rows
      · have hpredict : t.perform (.predictInput bytes s'.seqNum) = some s'.mirror := hp
        exact (perform_rows (hsame.sized hsized) hpredict nofun).trans hsame.rows
      · have habort : t.perform .abortPrediction = some u := ha
        exact hsame'.rows.trans ((perform_rows (hsame.sized hsized) habort nofun).trans hsame.rows)
    · rcases step_quiet hrecv hstdin hs with hsame | ⟨u, ha, hsame⟩
      · exact still_of_sameScreen hidle hsame
      · have hstill := still_of_abort hidle ha
        have hlast := still_of_sameScreen hstill.idle hsame
        exact ⟨hlast.cells.trans hstill.cells, hlast.cols.trans hstill.cols, hlast.rows.trans hstill.rows,
          hlast.cursor.trans hstill.cursor, hlast.idle⟩

/-- The last applied state is on the screen. -/
def ShowsLast (s : MirrorSession C) : Prop := ∃ e, s.applied.getLast? = some e ∧ s.mirror.Displays e.2

/-- STEP: as long as nobody types, the last applied state stays on the screen, or the next one takes its
    place. -/
theorem ShowsLast.step (hd : s.ShowsLast) (h : Fitted s) (hstdin : ∀ buf now, ev ≠ .stdin buf now)
    (hs : s.step ev = some s') : s'.ShowsLast := by
  obtain ⟨e, hlast, he⟩ := hd
  rcases step_screen h hs with ⟨happ, -, hkeep⟩ | ⟨q, g, happ, -, hshow, hidle⟩
  · exact ⟨e, happ ▸ hlast, he.still (hkeep hstdin he.idle)⟩
  · exact ⟨(q, g), by rw [happ, List.getLast?_concat], hshow (hidle he.idle)⟩

/-- RUN: datagrams that come to a screen without batches leave none, and either no frame is applied or the
    last one is shown. -/
theorem showsLast_of_recvs {evs : List MirrorEvent} (hrecv : ∀ ev ∈ evs, ∃ bytes now, ev = .recv bytes now)
    (h : Fitted s) (hidle : s.mirror.echoEngine.unconfirmedInputs = [])
    (hrun : runFrom MirrorSession.step s evs = some s') : s'.applied = s.applied ∨ s'.ShowsLast := by
  have hstep : ∀ (t : MirrorSession C) ev t', Fitted t ∧ t.mirror.echoEngine.unconfirmedInputs = [] ∧
      (t.applied = s.applied ∨ t.ShowsLast) → (∃ bytes now, ev = .recv bytes now) → t.step ev = some t' →
      Fitted t' ∧ t'.mirror.echoEngine.unconfirmedInputs = [] ∧
        (t'.applied = s.applied ∨ t'.ShowsLast) := by
    rintro t ev t' ⟨hf, hidle, hcase⟩ ⟨bytes, now, rfl⟩ ht
    refine ⟨hf.step ht, ?_⟩
    have hno : ∀ (buf : Bytes) (now' : Instant), MirrorEvent.recv bytes now ≠ .stdin buf now' := by
      rintro _ _ ⟨⟩
    rcases step_screen hf ht with ⟨happ, -, hstill⟩ | ⟨q, g, happ, -, hshow, hleft⟩
    · refine ⟨(hstill hno hidle).idle, hcase.imp (happ.trans ·) fun hd => ?_⟩
      exact hd.step hf hno ht
    · exact ⟨hleft hidle, .inr ⟨(q, g), by rw [happ, List.getLast?_concat], hshow (hleft hidle)⟩⟩
  exact (run_invariant hstep evs ⟨h, hidle, .inl rfl⟩ (stepsMeet_of_forall hrecv) hrun).2.2

end MirrorSession

end Rumsh.Client
