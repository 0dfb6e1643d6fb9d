import Rumsh.Client.Console

/-! Incremental painting against a full repaint.

    It shows the same as long as each event marks what it uncovers. Some do not: erasing the host on
    resuming, switching the overlay off, a shorter overlay text, and a banner that ran off the screen leave
    marks out, and a new size with nothing on it takes the overlays with it. -/

namespace Rumsh.Client
open Rumsh.Schemes Rumsh.Protocol Utf8 ClientTerminalRenderer TerminalFrame

namespace Console
variable {c c' c₁ : Console}

/-! ### Events that leave the grid alone -/

/-- The size, the cells and the marks stay, and the host is not to be erased. -/
structure SameGrid (f f₁ : TerminalFrame) : Prop where
  cols : f₁.cols = f.cols
  rows : f₁.rows = f.rows
  cellCache : f₁.cellCache = f.cellCache
  clear : f₁.clearRequested = f.clearRequested

theorem SameGrid.gridAt {f f₁ : TerminalFrame} (h : SameGrid f f₁) (a b : ℕ) :
    f₁.gridAt a b = f.gridAt a b := by
  rw [TerminalFrame.gridAt, TerminalFrame.gridAt, cellAt, cellAt, h.cols, h.cellCache]

theorem SameGrid.isCorner {f f₁ : TerminalFrame} (h : SameGrid f f₁) (a b : ℕ) :
    f₁.IsCorner a b ↔ f.IsCorner a b := by
  rw [TerminalFrame.IsCorner, TerminalFrame.IsCorner, h.cols, h.rows]

/-- The host is prepared if no overlay goes where nothing is painted. -/
theorem prepared_iff_covers (h : Tracks c) (hgrid : SameGrid c.terminal.frame c₁.terminal.frame)
    (hhost : c₁.host = c.host) (hd : c₁.terminal.frame.dirty = true) :
    c₁.Prepared ↔ ∀ a b, ¬ c.terminal.frame.IsCorner a b → c₁.terminal.frame.overlaidAt a b = none →
      ¬ c₁.terminal.frame.Painted a b → c.terminal.frame.overlaidAt a b = none := by
  refine forall₂_congr fun a b => ?_
  rw [hgrid.isCorner]
  refine imp_congr_right fun hc => ?_
  rw [underneath, hgrid.clear, h.clear, if_neg Bool.false_ne_true, hhost, h.shows a b hc]
  by_cases hr : Refreshed c₁.terminal.frame a b
  · refine iff_of_true (.inl hr) fun hnone hno => ?_
    exact (hr.2.elim (fun hsome => hsome hnone) hno).elim
  · have hnone : c₁.terminal.frame.overlaidAt a b = none := by
      by_contra hsome
      exact hr ⟨hd, .inl hsome⟩
    have hno : ¬ c₁.terminal.frame.Painted a b := fun hp => hr ⟨hd, .inr hp⟩
    rw [shownAt_of_not_overlaid hnone, hgrid.gridAt]
    constructor
    · intro hsame _ _
      by_contra hsome
      refine not_isLabel_gridAt c.terminal.frame a b ?_
      rw [← hsame.resolve_left hr]
      exact isLabel_shownAt hsome
    · intro hcover
      exact .inr (shownAt_of_not_overlaid (hcover hnone hno))

/-- The host stays prepared if nothing changes that is shown. -/
theorem prepared_of_same (h : Tracks c) (hclear : c₁.terminal.frame.clearRequested = false)
    (hhost : c₁.host = c.host)
    (hcorner : ∀ a b, c₁.terminal.frame.IsCorner a b ↔ c.terminal.frame.IsCorner a b)
    (hshown : ∀ a b, c₁.terminal.frame.shownAt a b = c.terminal.frame.shownAt a b) : c₁.Prepared := by
  intro a b hc
  rw [underneath, hclear, if_neg Bool.false_ne_true, hhost, hshown,
    h.shows a b fun hc' => hc ((hcorner a b).mpr hc')]
  exact .inr rfl

/-- While an overlay is on, no row is marked. -/
theorem Tracks.not_painted (h : Tracks c)
    (hlaid : ¬ (c.terminal.frame.overlayEnabled = false ∧ c.terminal.frame.reconnecting = false)) :
    c.terminal.frame.dirty = false ∧ ∀ b, ¬ c.terminal.frame.rowMarked b :=
  h.rests.resolve_right fun hfresh => hlaid hfresh.2.1

theorem handle_toggleOverlay (h : Tracks c) (hc : c.handle .toggleOverlay = some c₁) :
    Handled c c₁ ∧ (c₁.Prepared ↔ c.MarksUncovered .toggleOverlay) := by
  cases hc
  refine ⟨⟨⟨h.sized.cells, h.sized.rowDirty⟩, ⟨h.narrow.cols, h.narrow.cells⟩, h.echo, fun _ => rfl,
    fun _ => rfl⟩, ?_⟩
  refine Iff.trans (prepared_iff_covers h ⟨rfl, rfl, rfl, rfl⟩ rfl rfl) ?_
  show _ ↔ c.terminal.frame.overlayEnabled = false
  have hbanner : ∀ a b, c.terminal.toggleOverlay.frame.bannerAt a b = c.terminal.frame.bannerAt a b :=
    fun _ _ => rfl
  cases ho : c.terminal.frame.overlayEnabled with
  | false =>
    refine iff_of_true (fun a b _ hnone _ => ?_) rfl
    rw [overlaidAt_eq_none_iff] at hnone ⊢
    exact ⟨overlayAt_eq_none_iff.mpr fun hon => by simp [ho] at hon, (hbanner a b) ▸ hnone.2⟩
  | true =>
    refine iff_of_false (fun hcover => ?_) nofun
    obtain ⟨a, hover, hnone, hcorner⟩ := exists_overlay ho
    have hmarks := (h.not_painted (by simp [ho])).2
    refine hover (overlaidAt_eq_none_iff.mp (hcover a 0 hcorner ?_ fun hp => hmarks 0 hp.2.1)).1
    rw [overlaidAt_eq_none_iff]
    refine ⟨overlayAt_eq_none_iff.mpr fun hon => ?_, hnone⟩
    have hoff : (!c.terminal.frame.overlayEnabled) = true := hon.1
    rw [ho] at hoff
    cases hoff

/-! ### Telemetry -/

/-- New measurements raise the flag if the overlay is on and its text changes. -/
structure Remeasured (f f₁ : TerminalFrame) : Prop where
  grid : SameGrid f f₁
  rowDirty : f₁.rowDirty = f.rowDirty
  reconnecting : f₁.reconnecting = f.reconnecting
  overlayEnabled : f₁.overlayEnabled = f.overlayEnabled
  keptFlag : f.dirty = true → f₁.dirty = true
  text : f.overlayEnabled = true → f₁.dirty = false → overlayText f₁ = overlayText f

theorem Remeasured.bannerAt {f f₁ : TerminalFrame} (h : Remeasured f f₁) (a b : ℕ) :
    f₁.bannerAt a b = f.bannerAt a b := by
  rw [TerminalFrame.bannerAt, TerminalFrame.bannerAt, h.reconnecting, h.grid.cols, h.grid.rows]

/-- The overlay is off, or its text is the same. -/
theorem Remeasured.overlayAt {f f₁ : TerminalFrame} (h : Remeasured f f₁)
    (hsame : f.overlayEnabled = true → overlayText f₁ = overlayText f) (a b : ℕ) :
    f₁.overlayAt a b = f.overlayAt a b := by
  rw [TerminalFrame.overlayAt, TerminalFrame.overlayAt, h.overlayEnabled]
  split
  · rename_i ho
    rw [overlayX, overlayX, hsame ho, h.grid.cols]
  · rfl

theorem prepared_of_remeasured (h : Tracks c) (hm : Remeasured c.terminal.frame c₁.terminal.frame)
    (hhost : c₁.host = c.host) (hecho : c₁.terminal.echoEngine = c.terminal.echoEngine) :
    Handled c c₁ ∧ (c₁.Prepared ↔ StaysCovered c.terminal.frame c₁.terminal.frame) := by
  refine ⟨⟨⟨?_, ?_⟩, ⟨hm.grid.cols ▸ h.narrow.cols, hm.grid.cellCache ▸ h.narrow.cells⟩, hecho ▸ h.echo,
    hm.keptFlag, fun _ => hm.rowDirty⟩, ?_⟩
  · rw [hm.grid.cellCache, hm.grid.cols, hm.grid.rows, h.sized.cells]
  · rw [hm.rowDirty, hm.grid.rows, h.sized.rowDirty]
  -- the text stays, because the overlay is off or nothing was raised
  have hstays : (c.terminal.frame.overlayEnabled = true →
      overlayText c₁.terminal.frame = overlayText c.terminal.frame) →
      c₁.Prepared ∧ StaysCovered c.terminal.frame c₁.terminal.frame := by
    intro hsame
    have hover := hm.overlayAt hsame
    refine ⟨prepared_of_same h (hm.grid.clear.trans h.clear) hhost hm.grid.isCorner fun a b => ?_,
      fun a b hab => .inl (hover a b ▸ hab)⟩
    rw [shownAt, shownAt, overlaidAt, overlaidAt, hover, hm.bannerAt, hm.grid.gridAt]
  cases ho : c.terminal.frame.overlayEnabled with
  | false =>
    obtain ⟨hp, hs⟩ := hstays fun hon => absurd (ho.symm.trans hon) Bool.false_ne_true
    exact iff_of_true hp hs
  | true =>
    cases hd : c₁.terminal.frame.dirty with
    | false =>
      obtain ⟨hp, hs⟩ := hstays fun _ => hm.text ho hd
      exact iff_of_true hp hs
    | true =>
      have hmarks := (h.not_painted (by simp [ho])).2
      rw [prepared_iff_covers h hm.grid hhost hd]
      refine forall₂_congr fun a b => ?_
      have hno : ¬ c₁.terminal.frame.Painted a b := by
        intro hp
        refine hmarks b ?_
        rw [rowMarked, ← hm.rowDirty]
        exact hp.2.1
      rw [overlaidAt_eq_none_iff, overlaidAt_eq_none_iff, hm.bannerAt]
      constructor
      · intro hcover hsome
        by_contra hnone
        rw [not_or, not_or, not_not, not_not] at hnone
        exact hsome (hcover hnone.2.2 ⟨hnone.1, hnone.2.1⟩ hno).1
      · intro hstay hc hnone _
        refine ⟨?_, hnone.2⟩
        by_contra hsome
        rcases hstay hsome with h | h | h
        · exact h hnone.1
        · exact h hnone.2
        · exact hc h

theorem overlayText_congr {f f₁ : TerminalFrame} (hrtt : f₁.rttMs = f.rttMs)
    (hloss : f₁.packetLossPct = f.packetLossPct) (hband : f₁.bandwidthKbS = f.bandwidthKbS)
    (hratio : f₁.compressionRatio = f.compressionRatio) (hfps : f₁.fps = f.fps) :
    overlayText f₁ = overlayText f := by
  rw [overlayText, overlayText, hrtt, hloss, hband, hratio, hfps]

theorem remeasured_recordRttLoss (t : ClientTerminal) (rttMs : Option ℕ) (lossPct : Option Float32) :
    Remeasured t.frame (t.recordRttLoss rttMs lossPct).frame := by
  unfold ClientTerminal.recordRttLoss
  dsimp only
  refine ⟨⟨rfl, rfl, rfl, rfl⟩, rfl, rfl, rfl, fun hd => by simp [hd], fun ho hd => ?_⟩
  simp only [ho, Bool.true_and, Bool.or_eq_false_iff, bne_eq_false_iff_eq] at hd
  obtain ⟨-, hrtt, hloss⟩ := hd
  rw [Option.isSome_eq_false_iff, Option.isNone_iff_eq_none] at hloss
  refine overlayText_congr hrtt.symm ?_ rfl rfl rfl
  rw [hloss]
  rfl

theorem remeasured_recordBandwidthCompression (t : ClientTerminal) (kbS ratio : Float32) :
    Remeasured t.frame (t.recordBandwidthCompression kbS ratio).frame := by
  unfold ClientTerminal.recordBandwidthCompression
  dsimp only
  generalize (decide ((t.frame.bandwidthKbS - kbS).abs > 0.1) ||
    decide ((t.frame.compressionRatio - ratio).abs > 0.1)) = changed
  refine ⟨⟨rfl, rfl, rfl, rfl⟩, rfl, rfl, rfl, fun hd => by simp [hd], fun ho hd => ?_⟩
  obtain rfl : changed = false := by
    simp only [ho, Bool.true_and, Bool.or_eq_false_iff] at hd
    exact hd.2
  exact overlayText_congr rfl rfl rfl rfl rfl

theorem remeasured_recordFps (t : ClientTerminal) (fps : ℕ) :
    Remeasured t.frame (t.recordFps fps).frame := by
  unfold ClientTerminal.recordFps
  refine ⟨⟨rfl, rfl, rfl, rfl⟩, rfl, rfl, rfl, fun hd => by simp [hd], fun ho hd => ?_⟩
  simp only [ho, Bool.true_and, Bool.or_eq_false_iff, bne_eq_false_iff_eq] at hd
  exact overlayText_congr rfl rfl rfl rfl hd.2.symm

/-! ### The banner -/

/-- Taking the banner away marks its row, so only what runs off the screen is not painted over. -/
theorem prepared_of_banner_off (h : Tracks c) (hr : c.terminal.frame.reconnecting = true)
    (hrows : 0 < c.terminal.frame.rows)
    (hc : c₁ = { c with terminal := { c.terminal with frame := { c.terminal.frame with
      reconnecting := false, dirty := true
      rowDirty := c.terminal.frame.rowDirty.set (c.terminal.frame.rows - 1) true } } }) :
    Handled c c₁ ∧ (c₁.Prepared ↔ ∀ a b, c.terminal.frame.cols ≤ a →
      c.terminal.frame.bannerAt a b ≠ none → c.terminal.frame.overlayAt a b ≠ none) := by
  subst hc
  refine ⟨⟨⟨h.sized.cells, List.length_set.trans h.sized.rowDirty⟩, ⟨h.narrow.cols, h.narrow.cells⟩, h.echo,
    fun _ => rfl, fun hflag => absurd hflag Bool.false_ne_true.symm⟩, ?_⟩
  refine Iff.trans (prepared_iff_covers h ⟨rfl, rfl, rfl, rfl⟩ rfl rfl) ?_
  have hmarks := (h.not_painted (by simp [hr])).2
  -- only the last row is marked
  have hmarked : ∀ b, (c.terminal.frame.rowDirty.set (c.terminal.frame.rows - 1) true)[b]? = some true ↔
      b = c.terminal.frame.rows - 1 := by
    intro b
    by_cases hb : c.terminal.frame.rows - 1 = b
    · rw [← hb, List.getElem?_set_self (by rw [h.sized.rowDirty]; omega)]
      exact iff_of_true rfl rfl
    · rw [List.getElem?_set_ne hb]
      exact iff_of_false (hmarks b) (Ne.symm hb)
  constructor
  · intro hcover a b ha hbanner hover
    refine hbanner (overlaidAt_eq_none_iff.mp (hcover a b (fun hc => ?_) ?_ fun hp => ?_)).2
    · have := hc.1
      omega
    · exact overlaidAt_eq_none_iff.mpr ⟨hover, rfl⟩
    · exact absurd hp.1 (not_lt.mpr ha)
  · intro hstay a b hcorner hnone hpaint
    have hover : c.terminal.frame.overlayAt a b = none := (overlaidAt_eq_none_iff.mp hnone).1
    refine overlaidAt_eq_none_iff.mpr ⟨hover, ?_⟩
    by_contra hbanner
    have hrow := (not_not.mp (mt bannerAt_eq_none_iff.mpr hbanner)).2.2.2
    refine hstay a b (not_lt.mp fun ha => hpaint ⟨ha, ?_, hcorner⟩) hbanner hover
    exact (hmarked b).mpr hrow

theorem handle_setReconnecting (h : Tracks c) (reconnecting : Bool) :
    (c.MarksUncovered (.setReconnecting reconnecting) →
      ∃ c₁, c.handle (.setReconnecting reconnecting) = some c₁) ∧
    ∀ c₁, c.handle (.setReconnecting reconnecting) = some c₁ →
      Handled c c₁ ∧ (c₁.Prepared ↔ c.MarksUncovered (.setReconnecting reconnecting)) := by
  unfold handle MarksUncovered
  dsimp only
  by_cases hsame : c.terminal.frame.reconnecting = reconnecting
  · rw [ClientTerminal.setReconnecting_same hsame]
    refine ⟨fun _ => ⟨_, rfl⟩, fun c₁ hc => ?_⟩
    obtain rfl := Option.some.inj hc
    refine ⟨⟨h.sized, h.narrow, h.echo, id, fun _ => rfl⟩, iff_of_true ?_ ?_⟩
    · exact prepared_of_same h h.clear rfl (fun _ _ => Iff.rfl) fun _ _ => rfl
    · cases reconnecting with
      | true => exact .inl rfl
      | false => exact .inr (.inl hsame)
  cases reconnecting with
  | true =>
    have hr : c.terminal.frame.reconnecting = false := by simpa using hsame
    rw [ClientTerminal.setReconnecting_on hr]
    refine ⟨fun _ => ⟨_, rfl⟩, fun c₁ hc => ?_⟩
    obtain rfl := Option.some.inj hc
    refine ⟨⟨⟨h.sized.cells, h.sized.rowDirty⟩, ⟨h.narrow.cols, h.narrow.cells⟩, h.echo, fun _ => rfl,
      fun _ => rfl⟩, iff_of_true ?_ (.inl rfl)⟩
    refine Iff.mpr (prepared_iff_covers h ⟨rfl, rfl, rfl, rfl⟩ rfl rfl) fun a b _ hnone _ => ?_
    rw [overlaidAt_eq_none_iff] at hnone ⊢
    exact ⟨hnone.1, bannerAt_eq_none_iff.mpr fun hon =>
      absurd (hr.symm.trans hon.1) Bool.false_ne_true⟩
  | false =>
    have hr : c.terminal.frame.reconnecting = true := by simpa using hsame
    rw [ClientTerminal.setReconnecting_off hr, h.sized.rowDirty]
    by_cases hrows : 0 < c.terminal.frame.rows
    · rw [if_pos (by omega)]
      refine ⟨fun _ => ⟨_, rfl⟩, fun c₁ hc => ?_⟩
      obtain rfl := Option.some.inj hc
      obtain ⟨hh, hiff⟩ := prepared_of_banner_off h hr hrows rfl
      exact ⟨hh, hiff.trans (by simp [hr, hrows])⟩
    · rw [if_neg (by omega)]
      exact ⟨by simp [hr, hrows], fun c₁ hc => nomatch hc⟩

/-! ### Resuming -/

/-- Without predictions nothing is taken back. -/
theorem abortPrediction_idle {t : ClientTerminal} (h : t.echoEngine.unconfirmedInputs = []) :
    t.abortPrediction = some
      { frame := t.frame
        echoEngine := { unconfirmedInputs := [], currentEpoch := t.echoEngine.currentEpoch + 1 } } := by
  rw [ClientTerminal.abortPrediction, LocalEchoEngine.abort, h]
  rfl

theorem reenter_eq (h : Tracks c) : c.reenter = some
    { c with
      terminal :=
        { frame := { c.terminal.frame with dirty := true }
          echoEngine :=
            { unconfirmedInputs := [], currentEpoch := c.terminal.echoEngine.currentEpoch + 1 } }
      host := c.host.erased } := by
  have hidle : c.terminal.markDirty.abortPrediction = some _ := abortPrediction_idle h.echo
  rw [reenter, hidle]
  rfl

/-- Nothing is marked for the erased host, so it is prepared if there is nothing to show. -/
theorem reenter_spec (h : Tracks c) (hc : c.reenter = some c₁) (cols rows : ℕ) :
    Handled c c₁ ∧ (c₁.Prepared ↔ c.MarksUncovered (.suspend cols rows)) := by
  obtain rfl := Option.some.inj ((reenter_eq h).symm.trans hc)
  refine ⟨⟨⟨h.sized.cells, h.sized.rowDirty⟩, ⟨h.narrow.cols, h.narrow.cells⟩, rfl, fun _ => rfl,
    fun _ => rfl⟩, ?_⟩
  constructor
  · intro hp x y hx hy hcorner hnone
    rcases h.rests with ⟨-, hmarks⟩ | ⟨-, -, hblank⟩
    · rcases hp x y hcorner with hr | heq
      · exact absurd hr.2 (not_or.mpr ⟨fun hsome => hsome hnone, fun hp => hmarks y hp.2.1⟩)
      · rw [← shownAt_of_not_overlaid hnone]
        exact heq.symm.trans (underneath_erased ..)
    · exact hblank x y
  · intro hblank a b hcorner
    by_cases hnone : c.terminal.frame.overlaidAt a b = none
    · refine .inr ((underneath_erased ..).trans (Eq.symm ?_))
      show c.terminal.frame.shownAt a b = _
      rw [shownAt_of_not_overlaid hnone]
      by_cases hin : a < c.terminal.frame.cols ∧ b < c.terminal.frame.rows
      · exact hblank a b hin.1 hin.2 hcorner hnone
      · exact h.sized.gridAt_outside hin
    · exact .inl ⟨rfl, .inl hnone⟩

/-! ### A new grid -/

theorem applyFrame_idle {t : ClientTerminal} (h : t.echoEngine.unconfirmedInputs = []) (newState : GridState)
    (serverSeq : ℕ) : t.applyFrame newState serverSeq =
      (t.frame.updateFromGridState newState).map fun f =>
        { frame := { f with lastSeq := serverSeq }
          echoEngine := { t.echoEngine with unconfirmedInputs := [] } } := by
  unfold ClientTerminal.applyFrame LocalEchoEngine.reconcileFrame
  rw [h]
  cases t.frame.updateFromGridState newState <;> rfl

/-- The overlays stay on and off over a new grid. -/
theorem labels_updateFromGridState {f f' : TerminalFrame} {newState : GridState}
    (h : f.updateFromGridState newState = some f') :
    (f'.reconnecting = f.reconnecting ∧ f'.overlayEnabled = f.overlayEnabled ∧
      overlayText f' = overlayText f) ∧ f'.clearRequested = (f.resizedTo newState).clearRequested ∧
      (f.dirty = true → f'.dirty = true) := by
  obtain ⟨⟨f₁, hupd, rfl⟩, -⟩ := updateFromGridState_updates h
  obtain ⟨_, _, _, hframe⟩ := resizedTo_frame f newState
  obtain ⟨_, heq, hd⟩ := updateCursor_frame f₁ newState
  have hflag : f.dirty = true → f₁.dirty = true := fun hdirty => hupd.keptFlag (by rw [hframe]; exact hdirty)
  rw [heq, hupd.shape]
  refine ⟨?_, rfl, fun hf => hd.mpr (.inl (hflag hf))⟩
  rw [hframe]
  exact ⟨rfl, rfl, rfl⟩

/-- On a screen of another size, what is to be painted is what the grid brings. -/
theorem agrees_iff_brings {f : TerminalFrame} {newState : GridState}
    (hne : ¬ (newState.cols = f.cols ∧ newState.rows = f.rows)) :
    f.Agrees newState ↔ ¬ BringsContent f newState := by
  have hcursor : (f.cursor, f.cursorVisible) =
        ((newState.cursorX, newState.cursorY), newState.cursorVisible) ↔
      (newState.cursorX, newState.cursorY, newState.cursorVisible) =
        (f.cursorX, f.cursorY, f.cursorVisible) := by
    simp only [cursor, Prod.mk.injEq]
    exact ⟨fun h => ⟨h.1.1.symm, h.1.2.symm, h.2.symm⟩, fun h => ⟨⟨h.1.symm, h.2.1.symm⟩, h.2.2.symm⟩⟩
  unfold Agrees BringsContent
  rw [resizedTo_other hne, hcursor, not_or, ne_eq, not_not, and_comm]
  refine and_congr_right fun _ => ?_
  simp only [not_exists, not_and, not_not]
  refine forall_congr' fun y => imp_congr_right fun hy => forall_congr' fun x =>
    imp_congr_right fun hx => ?_
  show (∀ old new, (List.replicate _ blankCell)[y * newState.cols + x]? = some old → _ → _) ↔ _
  rw [List.getElem?_replicate, if_pos (GridState.index_lt hy hx)]
  constructor
  · intro h cell hcell
    exact (h _ cell rfl hcell).symm
  · rintro h old new hold hnew
    rw [← Option.some.inj hold]
    exact (h new hnew).symm

theorem applyFrame_handled (h : Tracks c) {newState : GridState} {serverSeq : ℕ}
    (hn : (ConsoleEvent.applyFrame newState serverSeq).Narrow) {f' : TerminalFrame}
    (hf : c.terminal.frame.updateFromGridState newState = some f')
    (hc : c₁ = { c with terminal := {
      frame := { f' with lastSeq := serverSeq }
      echoEngine := { c.terminal.echoEngine with unconfirmedInputs := [] } } }) :
    Handled c c₁ := by
  subst hc
  obtain ⟨f'', hf'', hm⟩ := updateFromGridState_marks h.sized newState
  obtain rfl := Option.some.inj (hf.symm.trans hf'')
  obtain ⟨hsized, -, hcase⟩ := resizedTo_spec h.sized newState
  obtain ⟨-, hclear, hkept⟩ := labels_updateFromGridState hf
  obtain ⟨-, hagree, hdiff⟩ := updateFromGridState_updates hf
  have hsized' := hm.sized hsized
  refine ⟨⟨hsized'.cells, hsized'.rowDirty⟩, ⟨?_, ?_⟩, rfl, hkept, fun hflag => ?_⟩
  · show f'.cols < 2 ^ 16
    obtain ⟨_, _, _, hframe⟩ := resizedTo_frame c.terminal.frame newState
    rw [hm.cols, hframe]
    exact hn.1
  · show ∀ cell ∈ f'.cellCache, NarrowCell cell
    exact updateFromGridState_cells hf narrow_blankCell h.narrow.cells hn.2
  · have hoff : f'.dirty = false ∧ f'.clearRequested = false := flagged_eq_false_iff.mp hflag
    show f'.rowDirty = c.terminal.frame.rowDirty
    have hag : c.terminal.frame.Agrees newState := by
      by_contra hno
      exact absurd (hoff.1.symm.trans (hdiff hno)) Bool.false_ne_true
    rw [hagree hag]
    rcases hcase with heq | hcl
    · rw [heq]
    · exact absurd (hoff.2.symm.trans (hclear.trans hcl.clearRequested)) Bool.false_ne_true

theorem overlaidAt_congr {f f' : TerminalFrame} (hcols : f'.cols = f.cols) (hrows : f'.rows = f.rows)
    (hlabels : f'.reconnecting = f.reconnecting ∧ f'.overlayEnabled = f.overlayEnabled ∧
      overlayText f' = overlayText f) (a b : ℕ) : f'.overlaidAt a b = f.overlaidAt a b := by
  rw [overlaidAt, overlaidAt, overlayAt, overlayAt, bannerAt, bannerAt, overlayX, overlayX, hcols, hrows,
    hlabels.1, hlabels.2.1, hlabels.2.2]

/-- On a screen of the same size, what changes is marked. -/
theorem prepared_of_same_size (h : Tracks c) {newState : GridState}
    (hsize : newState.cols = c.terminal.frame.cols ∧ newState.rows = c.terminal.frame.rows)
    (hf : c.terminal.frame.updateFromGridState newState = some c₁.terminal.frame)
    (hhost : c₁.host = c.host) : c₁.Prepared := by
  obtain ⟨f', hf', hm⟩ := updateFromGridState_marks h.sized newState
  obtain rfl := Option.some.inj (hf.symm.trans hf')
  obtain ⟨hlabels, hclear, -⟩ := labels_updateFromGridState hf
  rw [resizedTo_same hsize] at hm hclear
  have hclear := hclear.trans h.clear
  intro a b hcorner
  rw [underneath, hclear, if_neg Bool.false_ne_true, hhost]
  by_cases hcell : (a < c.terminal.frame.cols ∧ b < c.terminal.frame.rows) ∧
      c₁.terminal.frame.cellAt a b ≠ c.terminal.frame.cellAt a b
  · obtain ⟨hmark, hflag⟩ := hm.cell a b hcell.1.1 hcell.1.2 hcell.2
    have hd : c₁.terminal.frame.dirty = true := by simpa [flagged, hclear] using hflag
    exact .inl ⟨hd, .inr ⟨hm.cols ▸ hcell.1.1, hmark, hcorner⟩⟩
  · have hgrid : c₁.terminal.frame.gridAt a b = c.terminal.frame.gridAt a b := by
      by_cases hin : a < c.terminal.frame.cols ∧ b < c.terminal.frame.rows
      · have hsame := not_not.mp fun hne => hcell ⟨hin, hne⟩
        rw [gridAt, gridAt, hm.cols, hsame]
      · rw [h.sized.gridAt_outside hin, (hm.sized h.sized).gridAt_outside (by rwa [hm.cols, hm.rows])]
    rw [shownAt, hgrid, overlaidAt_congr hm.cols hm.rows hlabels]
    refine .inr (h.shows a b fun hc => hcorner ?_)
    exact ⟨hc.1.trans hm.cols.symm, hc.2.trans hm.rows.symm⟩

/-- Nothing is underneath on a host that is to be erased. -/
theorem underneath_of_clear (h : c₁.terminal.frame.clearRequested = true) (a b : ℕ) :
    underneath c₁.host c₁.terminal.frame a b = .blank := by
  rw [underneath, h, if_pos rfl]

/-- If nothing is painted then, a blank grid looks right as long as no overlay is on. -/
theorem prepared_iff_of_blank (hclear : c₁.terminal.frame.clearRequested = true)
    (hblank : ∀ a b, c₁.terminal.frame.gridAt a b = .blank)
    (hd : ¬ (c₁.terminal.frame.overlayEnabled = false ∧ c₁.terminal.frame.reconnecting = false) →
      c₁.terminal.frame.dirty = false) :
    c₁.Prepared ↔
      c₁.terminal.frame.overlayEnabled = false ∧ c₁.terminal.frame.reconnecting = false := by
  constructor
  · intro hp
    by_contra hlaid
    obtain ⟨a, b, hsome, hcorner⟩ := exists_overlaid hlaid
    rcases hp a b hcorner with hr | heq
    · exact absurd ((hd hlaid).symm.trans hr.1) Bool.false_ne_true
    · refine not_isLabel_blank ?_
      rw [← underneath_of_clear hclear a b, heq]
      exact isLabel_shownAt hsome
  · intro hoff a b _
    have hnone : c₁.terminal.frame.overlaidAt a b = none := by
      rw [overlaidAt_eq_none_iff, overlayAt_eq_none_iff, bannerAt_eq_none_iff, hoff.1, hoff.2]
      exact ⟨fun hon => absurd hon.1 Bool.false_ne_true, fun hon => absurd hon.1 Bool.false_ne_true⟩
    rw [underneath_of_clear hclear, shownAt_of_not_overlaid hnone, hblank]
    exact .inr rfl

/-- If everything is painted then, it looks right. -/
theorem prepared_of_cleared (hsized : c₁.terminal.frame.Sized) (hcl : Cleared c₁.terminal.frame)
    (hd : c₁.terminal.frame.dirty = true) : c₁.Prepared := by
  intro a b hcorner
  by_cases hnone : c₁.terminal.frame.overlaidAt a b = none
  · by_cases hin : a < c₁.terminal.frame.cols ∧ b < c₁.terminal.frame.rows
    · exact .inl ⟨hd, .inr ⟨hin.1, hcl.rows b hin.2, hcorner⟩⟩
    · rw [underneath_of_clear hcl.clearRequested, shownAt_of_not_overlaid hnone,
        hsized.gridAt_outside hin]
      exact .inr rfl
  · exact .inl ⟨hd, .inl hnone⟩

/-- A screen of another size starts erased and wholly marked. -/
theorem prepared_iff_of_resized (h : Tracks c) {newState : GridState}
    (hsize : ¬ (newState.cols = c.terminal.frame.cols ∧ newState.rows = c.terminal.frame.rows))
    (hf : c.terminal.frame.updateFromGridState newState = some c₁.terminal.frame) :
    c₁.Prepared ↔
      (c.terminal.frame.overlayEnabled = false ∧ c.terminal.frame.reconnecting = false) ∨
        BringsContent c.terminal.frame newState := by
  obtain ⟨f', hf', hm⟩ := updateFromGridState_marks h.sized newState
  obtain rfl := Option.some.inj (hf.symm.trans hf')
  obtain ⟨hsized, -, hcase⟩ := resizedTo_spec h.sized newState
  obtain ⟨hlabels, -, -⟩ := labels_updateFromGridState hf
  obtain ⟨-, hagree, hdiff⟩ := updateFromGridState_updates hf
  have hcleared : Cleared c₁.terminal.frame := by
    rcases hcase with heq | hcl
    · rw [resizedTo_other hsize] at heq
      exact absurd ⟨congrArg TerminalFrame.cols heq, congrArg TerminalFrame.rows heq⟩ hsize
    · exact hcl.marks hm
  have hsized' := hm.sized hsized
  by_cases hag : c.terminal.frame.Agrees newState
  · have hframe := hagree hag
    have hblank : ∀ a b, c₁.terminal.frame.gridAt a b = .blank := by
      refine fun a b => hsized'.gridAt_of_blank (fun cell hcell => ?_) a b
      rw [hframe, resizedTo_other hsize] at hcell
      exact List.eq_of_mem_replicate hcell
    rw [or_iff_left ((agrees_iff_brings hsize).mp hag),
      prepared_iff_of_blank hcleared.clearRequested hblank, hlabels.1, hlabels.2.1]
    intro hlaid
    rw [hlabels.1, hlabels.2.1] at hlaid
    rw [hframe, resizedTo_other hsize]
    exact (h.not_painted hlaid).1
  · have hbrings := not_not.mp (mt (agrees_iff_brings hsize).mpr hag)
    exact iff_of_true (prepared_of_cleared hsized' hcleared (hdiff hag)) (.inr hbrings)

theorem handle_applyFrame (h : Tracks c) {newState : GridState} {serverSeq : ℕ}
    (hn : (ConsoleEvent.applyFrame newState serverSeq).Narrow) :
    ∃ c₁, c.handle (.applyFrame newState serverSeq) = some c₁ ∧ Handled c c₁ ∧
      (c₁.Prepared ↔ c.MarksUncovered (.applyFrame newState serverSeq)) := by
  obtain ⟨f', hf, -⟩ := updateFromGridState_marks h.sized newState
  refine ⟨_, by rw [handle, applyFrame_idle h.echo, hf]; rfl, applyFrame_handled h hn hf rfl, ?_⟩
  -- the number of the frame is not shown
  show Prepared { c with terminal := { frame := f', echoEngine := c.terminal.echoEngine } } ↔ _
  rw [MarksUncovered]
  by_cases hsize : newState.cols = c.terminal.frame.cols ∧ newState.rows = c.terminal.frame.rows
  · exact iff_of_true (prepared_of_same_size h hsize hf rfl) (.inl hsize)
  · rw [or_iff_right hsize]
    exact prepared_iff_of_resized h hsize hf

/-! ### Runs -/

/-- HANDLE: it returns if nothing uncovered is left unmarked, and whenever it returns, the host is prepared
    exactly then. -/
theorem handle_spec (h : Tracks c) {e : ConsoleEvent} (hn : e.Narrow) :
    (c.MarksUncovered e → ∃ c₁, c.handle e = some c₁) ∧
    ∀ c₁, c.handle e = some c₁ → Handled c c₁ ∧ (c₁.Prepared ↔ c.MarksUncovered e) := by
  cases e with
  | applyFrame newState serverSeq =>
    obtain ⟨c₁, hc, hspec⟩ := handle_applyFrame h hn
    refine ⟨fun _ => ⟨c₁, hc⟩, fun c₂ hc₂ => ?_⟩
    obtain rfl := Option.some.inj (hc.symm.trans hc₂)
    exact hspec
  | setReconnecting reconnecting => exact handle_setReconnecting h reconnecting
  | toggleOverlay => exact ⟨fun _ => ⟨_, rfl⟩, fun c₁ hc => handle_toggleOverlay h hc⟩
  | recordRttLoss rttMs lossPct =>
    refine ⟨fun _ => ⟨_, rfl⟩, fun c₁ hc => ?_⟩
    obtain rfl := Option.some.inj hc
    exact prepared_of_remeasured h (remeasured_recordRttLoss ..) rfl rfl
  | recordBandwidthCompression kbS ratio =>
    refine ⟨fun _ => ⟨_, rfl⟩, fun c₁ hc => ?_⟩
    obtain rfl := Option.some.inj hc
    exact prepared_of_remeasured h (remeasured_recordBandwidthCompression ..) rfl rfl
  | recordFps fps =>
    refine ⟨fun _ => ⟨_, rfl⟩, fun c₁ hc => ?_⟩
    obtain rfl := Option.some.inj hc
    exact prepared_of_remeasured h (remeasured_recordFps ..) rfl rfl
  | suspend cols rows => exact ⟨fun _ => ⟨_, reenter_eq h⟩, fun c₁ hc => reenter_spec h hc cols rows⟩
  | help cols rows => exact ⟨fun _ => ⟨_, reenter_eq h⟩, fun c₁ hc => reenter_spec h hc cols rows⟩

/-- STEP: an event that leaves nothing uncovered unmarked is followed by what a full repaint shows. -/
theorem Tracks.step (h : Tracks c) {e : ConsoleEvent} (hn : e.Narrow) (he : c.MarksUncovered e) :
    ∃ c', c.step e = some c' ∧ Tracks c' := by
  obtain ⟨hreturns, hspec⟩ := handle_spec h hn
  obtain ⟨c₁, hc⟩ := hreturns he
  obtain ⟨hh, hiff⟩ := hspec c₁ hc
  obtain ⟨c', hrefresh, hlooks, htracks⟩ := hh.refresh h
  exact ⟨c', by rw [Console.step, hc]; exact hrefresh, htracks (hlooks.mpr (hiff.mpr he))⟩

/-- And no other event is. -/
theorem Tracks.marksUncovered (h : Tracks c) {e : ConsoleEvent} (hn : e.Narrow) (hc : c.step e = some c')
    (hlooks : c'.LooksRepainted) : c.MarksUncovered e := by
  obtain ⟨c₁, hc₁, hrefresh⟩ := Option.bind_eq_some_iff.mp hc
  obtain ⟨hh, hiff⟩ := (handle_spec h hn).2 c₁ hc₁
  obtain ⟨c'', hrefresh', hlooks', -⟩ := hh.refresh h
  obtain rfl := Option.some.inj (hrefresh.symm.trans hrefresh')
  exact hiff.mp (hlooks'.mp hlooks)

theorem tracks_new {cols : ℕ} (hcols : cols < 2 ^ 16) (rows : ℕ) : Tracks (Console.new cols rows) := by
  have hsized : (TerminalFrame.new cols rows).Sized := ⟨List.length_replicate, List.length_replicate⟩
  have hblank := hsized.gridAt_of_blank fun _ hcell => List.eq_of_mem_replicate hcell
  refine ⟨hsized, ⟨hcols, fun c hc => ?_⟩, rfl, rfl, fun a b _ => ?_, .inr ⟨rfl, ⟨rfl, rfl⟩, hblank⟩⟩
  · rw [List.eq_of_mem_replicate hc]
    exact narrow_blankCell
  · exact (hblank a b).symm

/-- INCREMENTAL: along a run the host shows what a full repaint shows, up to each of its points, exactly if
    every event marks what it uncovers. -/
theorem incremental_eq_repainted_iff {cols : ℕ} (hcols : cols < 2 ^ 16) (rows : ℕ) {es : List ConsoleEvent}
    (hn : ∀ e ∈ es, e.Narrow) :
    (∀ before, before <+: es → ∃ c, runFrom Console.step (Console.new cols rows) before = some c ∧
      c.LooksRepainted) ↔ StepsMeet Console.step MarksUncovered (Console.new cols rows) es :=
  prefixes_good_iff (fun _ h => (looksRepainted_iff h.sized h.narrow).mpr h.shows)
    (fun _ _ hn h he => h.step hn he) (fun _ _ _ hn h hc hlooks => h.marksUncovered hn hc hlooks) hn
    (tracks_new hcols rows)

/-- An `a` in the first of two cells. -/
def letterGrid : GridState :=
  { GridState.blank 2 1 with
    cells := [{ blankCell with graphemes := CompactGrapheme.new [0x61] }, blankCell] }

theorem letterGrid_narrow : letterGrid.cols < 2 ^ 16 ∧ ∀ c ∈ letterGrid.cells, NarrowCell c := by
  refine ⟨by decide, fun c hc => ?_⟩
  rcases List.mem_pair.mp hc with rfl | rfl
  · exact ⟨[0x61], by decide, ⟨['a'], by decide⟩, by decide⟩
  · exact narrow_blankCell

/-- A letter is painted, and the banner over it. -/
theorem incremental_eq_repainted_banner :
    ∃ c, runFrom Console.step (Console.new 2 1) [.applyFrame letterGrid 1, .setReconnecting true] = some c ∧
      c.LooksRepainted := by
  refine (incremental_eq_repainted_iff (by decide) 1 fun e he => ?_).mpr ?_ _ (List.prefix_refl _)
  · rcases List.mem_pair.mp he with rfl | rfl
    · exact letterGrid_narrow
    · trivial
  · exact ⟨.inl ⟨rfl, rfl⟩, fun _ _ => ⟨.inl rfl, fun _ _ => trivial⟩⟩

/-- A letter is on the screen when the session is suspended; on return it stays away. -/
theorem suspend_leaves_blank :
    (runFrom Console.step (Console.new 2 1) [.applyFrame letterGrid 1, .suspend 2 1]).map
        (fun c => (c.host.cells 0 0, c.repainted.map fun h => h.cells 0 0)) =
      some (.blank, some { text := [0x61], style := .plain }) ∧
    ¬ ∀ cols rows es, cols < 2 ^ 16 → (∀ e ∈ es, e.Narrow) →
      ∃ c, runFrom Console.step (Console.new cols rows) es = some c ∧ c.LooksRepainted := by
  have hrun : (runFrom Console.step (Console.new 2 1) [.applyFrame letterGrid 1, .suspend 2 1]).map
      (fun c => (c.host.cells 0 0, c.repainted.map fun h => h.cells 0 0)) =
        some (.blank, some { text := [0x61], style := .plain }) := by
    decide
  refine ⟨hrun, fun hall => ?_⟩
  obtain ⟨c, hc, h, hh, hsame⟩ := hall 2 1 [.applyFrame letterGrid 1, .suspend 2 1] (by decide) fun e he => by
    rcases List.mem_pair.mp he with rfl | rfl
    · exact letterGrid_narrow
    · trivial
  have hcols : (runFrom Console.step (Console.new 2 1) [.applyFrame letterGrid 1, .suspend 2 1]).map
      (fun c => c.terminal.frame.cols) = some 2 := by
    decide
  rw [hc] at hrun hcols
  obtain ⟨hhost, hrep⟩ := Prod.mk.inj (Option.some.inj hrun)
  rw [hh] at hrep
  have hcell := hsame 0 0 fun hcorner => nomatch hcorner.1.trans (Option.some.inj hcols)
  exact absurd ((hhost.symm.trans hcell).trans (Option.some.inj hrep)) (by decide)

end Console

end Rumsh.Client
