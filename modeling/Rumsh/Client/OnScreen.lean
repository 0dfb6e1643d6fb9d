import Rumsh.Client.MainLoop
import Rumsh.Client.Shown

/-! What the user of the main loop sees.

    Between two paints the mirror runs ahead of the host. A console is `Paintable` if one paint would bring
    them together: whatever that paint does not print is on the host as it is to be. Every event of a user
    who only watches keeps it so, and the loop paints after each frame. -/

namespace Rumsh.Client
open Rumsh.Schemes Rumsh.Protocol ClientTerminalRenderer TerminalFrame

namespace Console
variable {c c' : Console} {f f' : TerminalFrame} {t : ClientTerminal} {op : MirrorOp} {g : GridState}

/-- A grid of cells one column wide that has room for the banner. -/
structure Fits (g : GridState) : Prop where
  wide : 17 ≤ g.cols
  cols : g.cols < 2 ^ 16
  cells : ∀ cell ∈ g.cells, NarrowCell cell

/-- The next paint shows the frame, and nobody has typed. -/
structure Paintable (c : Console) : Prop where
  sized : c.terminal.frame.Sized
  narrow : c.terminal.frame.Narrow
  wide : 17 ≤ c.terminal.frame.cols
  idle : c.terminal.echoEngine.unconfirmedInputs = []
  overlay : c.terminal.frame.overlayEnabled = false
  prepared : c.Prepared

/-- The banner lies over the columns of such a grid. -/
theorem lt_cols_of_bannerAt {a b : ℕ} (hwide : 17 ≤ f.cols) (h : f.bannerAt a b ≠ none) :
    a < f.cols ∧ b = f.rows - 1 := by
  obtain ⟨-, -, ha, hb⟩ := not_not.mp (mt bannerAt_eq_none_iff.mpr h)
  exact ⟨by omega, hb⟩

/-! ### Changes that are printed -/

/-- The second frame prints what the first does, and wherever else it shows something new. -/
structure Reprints (f f' : TerminalFrame) : Prop where
  cols : f'.cols = f.cols
  rows : f'.rows = f.rows
  clear : f'.clearRequested = f.clearRequested
  keptFlag : f.dirty = true → f'.dirty = true
  keptRow : ∀ b, f.rowMarked b → f'.rowMarked b
  shown : ∀ a b, ¬ f'.IsCorner a b → ¬ Refreshed f' a b →
    f'.shownAt a b = f.shownAt a b ∧ (f.overlaidAt a b ≠ none → f'.overlaidAt a b ≠ none)

theorem Prepared.reprints (h : c.Prepared) (hr : Reprints c.terminal.frame t.frame) :
    Prepared { c with terminal := t } := by
  intro a b hcorner
  refine or_iff_not_imp_left.mpr fun hno => ?_
  obtain ⟨hshown, hlaid⟩ := hr.shown a b hcorner hno
  have hcorner' : ¬ c.terminal.frame.IsCorner a b := by
    rw [TerminalFrame.IsCorner, ← hr.cols, ← hr.rows]
    exact hcorner
  rcases h a b hcorner' with hold | hsame
  · refine absurd ⟨hr.keptFlag hold.1, hold.2.imp hlaid fun hp => ?_⟩ hno
    exact ⟨hr.cols ▸ hp.1, hr.keptRow b hp.2.1, hcorner⟩
  · rw [underneath, hr.clear, hshown]
    exact hsame

/-- Nothing shows otherwise. -/
theorem reprints_of_same (hcols : f'.cols = f.cols) (hrows : f'.rows = f.rows)
    (hclear : f'.clearRequested = f.clearRequested) (hkept : f.dirty = true → f'.dirty = true)
    (hrow : f'.rowDirty = f.rowDirty) (hcells : f'.cellCache = f.cellCache)
    (hlaid : ∀ a b, f'.overlaidAt a b = f.overlaidAt a b) : Reprints f f' := by
  refine ⟨hcols, hrows, hclear, hkept, fun b hb => ?_, fun a b _ _ => ⟨?_, fun h => (hlaid a b).symm ▸ h⟩⟩
  · rw [rowMarked, hrow]
    exact hb
  · rw [shownAt, shownAt, hlaid, gridAt, gridAt, cellAt, cellAt, hcols, hcells]

theorem Remeasured.reprints (h : Remeasured f f') (ho : f.overlayEnabled = false) : Reprints f f' := by
  refine reprints_of_same h.grid.cols h.grid.rows h.grid.clear h.keptFlag h.rowDirty h.grid.cellCache
    fun a b => ?_
  rw [overlaidAt, overlaidAt, h.bannerAt, h.overlayAt fun hon => ?_]
  exact absurd (ho.symm.trans hon) Bool.false_ne_true

/-- What a flagged frame does not print has nothing laid over it. -/
theorem not_overlaid_of_not_refreshed {a b : ℕ} (hd : f.dirty = true) (h : ¬ Refreshed f a b) :
    f.overlaidAt a b = none ∧ ¬ f.Painted a b := by
  obtain ⟨hlaid, hpaint⟩ := not_or.mp fun hp => h ⟨hd, hp⟩
  exact ⟨not_not.mp hlaid, hpaint⟩

/-- The banner is printed when it appears, and its row when it goes. -/
theorem setReconnecting_reprints {t t' : ClientTerminal} {reconnecting : Bool} (hwide : 17 ≤ t.frame.cols)
    (h : t.setReconnecting reconnecting = some t') : Reprints t.frame t'.frame := by
  -- where nothing is printed there was nothing laid over the grid either
  have hshown : ∀ {f' : TerminalFrame} {a b : ℕ}, f'.gridAt a b = t.frame.gridAt a b →
      f'.overlaidAt a b = none → t.frame.overlaidAt a b = none →
      f'.shownAt a b = t.frame.shownAt a b ∧ (t.frame.overlaidAt a b ≠ none → f'.overlaidAt a b ≠ none) := by
    intro f' a b hgrid hnone hnone'
    exact ⟨by rw [shownAt_of_not_overlaid hnone, shownAt_of_not_overlaid hnone', hgrid],
      fun hsome => absurd hnone' hsome⟩
  obtain rfl | rfl | ⟨hrow, rfl⟩ := ClientTerminal.setReconnecting_cases h
  · exact reprints_of_same rfl rfl rfl id rfl rfl fun _ _ => rfl
  · refine ⟨rfl, rfl, rfl, fun _ => rfl, fun _ => id, fun a b _ hno => ?_⟩
    have hnone := (not_overlaid_of_not_refreshed rfl hno).1
    obtain ⟨hover, hbanner⟩ := overlaidAt_eq_none_iff.mp hnone
    refine hshown rfl hnone (overlaidAt_eq_none_iff.mpr ⟨hover, ?_⟩)
    exact bannerAt_eq_none_iff.mpr fun hon => bannerAt_eq_none_iff.mp hbanner ⟨rfl, hon.2⟩
  · refine ⟨rfl, rfl, rfl, fun _ => rfl, fun z hz => ?_, fun a b hcorner hno => ?_⟩
    · by_cases hzy : t.frame.rows - 1 = z
      · subst hzy
        exact List.getElem?_set_self hrow
      · exact (List.getElem?_set_ne hzy).trans hz
    · obtain ⟨hnone, hpaint⟩ := not_overlaid_of_not_refreshed rfl hno
      refine hshown rfl hnone (overlaidAt_eq_none_iff.mpr ⟨(overlaidAt_eq_none_iff.mp hnone).1, ?_⟩)
      by_contra hbanner
      obtain ⟨ha, rfl⟩ := lt_cols_of_bannerAt hwide hbanner
      exact hpaint ⟨ha, List.getElem?_set_self hrow, hcorner⟩

/-! ### A new grid -/

/-- On a screen of the same size the rows that differ are marked, with the flag. -/
theorem updateFromGridState_reprints (hf : f.Sized) (hsize : g.cols = f.cols ∧ g.rows = f.rows)
    (h : f.updateFromGridState g = some f') : Reprints f f' := by
  obtain ⟨_, heq, hm⟩ := updateFromGridState_marks hf g
  obtain rfl := Option.some.inj (h.symm.trans heq)
  obtain ⟨hlabels, hclear, hkept⟩ := labels_updateFromGridState h
  obtain ⟨-, hagree, hdiff⟩ := updateFromGridState_updates h
  rw [resizedTo_same hsize] at hm hclear hagree
  have hlaid := overlaidAt_congr hm.cols hm.rows hlabels
  refine ⟨hm.cols, hm.rows, hclear, hkept, hm.keptRow, fun a b hcorner hno => ⟨?_, fun hsome => ?_⟩⟩
  · rw [shownAt, shownAt, hlaid]
    by_cases hin : a < f.cols ∧ b < f.rows
    · by_cases hcell : f'.cellAt a b = f.cellAt a b
      · rw [gridAt, gridAt, hm.cols, hcell]
      · -- the cell changed, so the grid is another
        have hd : f'.dirty = true := hdiff fun hag => hcell (by rw [hagree hag])
        exact absurd ⟨hd, .inr ⟨hm.cols ▸ hin.1, (hm.cell a b hin.1 hin.2 hcell).1, hcorner⟩⟩ hno
    · rw [hf.gridAt_outside hin, (hm.sized hf).gridAt_outside (by rwa [hm.cols, hm.rows])]
  · rwa [hlaid]

/-- A screen of another size is erased first, and shown whole if there is anything on it. -/
theorem prepared_of_resized (hf : f.Sized) (hsize : ¬ (g.cols = f.cols ∧ g.rows = f.rows))
    (hoff : f.overlayEnabled = false ∧ f.reconnecting = false)
    (h : f.updateFromGridState g = some c.terminal.frame) : c.Prepared := by
  obtain ⟨_, heq, hm⟩ := updateFromGridState_marks hf g
  obtain rfl := Option.some.inj (h.symm.trans heq)
  obtain ⟨hlabels, -⟩ := labels_updateFromGridState h
  obtain ⟨-, hagree, hdiff⟩ := updateFromGridState_updates h
  obtain ⟨hsized, -, hcase⟩ := resizedTo_spec hf g
  have hcleared : Cleared c.terminal.frame := by
    rcases hcase with heq | hcl
    · rw [resizedTo_other hsize] at heq
      exact absurd ⟨congrArg TerminalFrame.cols heq, congrArg TerminalFrame.rows heq⟩ hsize
    · exact hcl.marks hm
  by_cases hag : f.Agrees g
  · have hoff' : c.terminal.frame.overlayEnabled = false ∧ c.terminal.frame.reconnecting = false :=
      ⟨hlabels.2.1.trans hoff.1, hlabels.1.trans hoff.2⟩
    refine (prepared_iff_of_blank hcleared.clearRequested (fun a b => ?_) fun hlaid => absurd hoff' hlaid).mpr
      hoff'
    refine (hm.sized hsized).gridAt_of_blank (fun cell hcell => ?_) a b
    rw [hagree hag, resizedTo_other hsize] at hcell
    exact List.eq_of_mem_replicate hcell
  · exact prepared_of_cleared (hm.sized hsized) hcleared (hdiff hag)

theorem Paintable.applyFrame (h : Paintable c) (hfits : Fits g) (hr : c.terminal.frame.reconnecting = false)
    {seq : ℕ} (hs : c.terminal.applyFrame g seq = some t) : Paintable { c with terminal := t } := by
  rw [applyFrame_idle h.idle] at hs
  obtain ⟨f', hf, rfl⟩ := Option.map_eq_some_iff.mp hs
  obtain ⟨_, heq, hm⟩ := updateFromGridState_marks h.sized g
  obtain rfl := Option.some.inj (hf.symm.trans heq)
  obtain ⟨hsized, -, -⟩ := resizedTo_spec h.sized g
  obtain ⟨_, _, _, hframe⟩ := resizedTo_frame c.terminal.frame g
  have hcols : f'.cols = g.cols := by rw [hm.cols, hframe]
  have hoverlay := (labels_updateFromGridState hf).1.2.1
  refine ⟨⟨(hm.sized hsized).cells, (hm.sized hsized).rowDirty⟩, ⟨hcols ▸ hfits.cols, ?_⟩,
    hcols ▸ hfits.wide, rfl, hoverlay.trans h.overlay, ?_⟩
  · show ∀ cell ∈ f'.cellCache, NarrowCell cell
    exact updateFromGridState_cells hf narrow_blankCell h.narrow.cells hfits.cells
  · -- the number of the frame is not shown
    show Prepared { c with terminal := { frame := f', echoEngine := c.terminal.echoEngine } }
    by_cases hsize : g.cols = c.terminal.frame.cols ∧ g.rows = c.terminal.frame.rows
    · exact h.prepared.reprints (updateFromGridState_reprints h.sized hsize hf)
    · exact prepared_of_resized h.sized hsize ⟨h.overlay, hr⟩ hf

/-! ### The operations of a user who only watches -/

/-- What the session asks of the mirror; a frame comes after the banner is taken away. -/
def Watches (t : ClientTerminal) : MirrorOp → Prop
  | .predictInput _ _ | .toggleOverlay | .consumeUpdates => False
  | .applyFrame g _ => Fits g ∧ t.frame.reconnecting = false
  | _ => True

theorem Paintable.of_reprints (h : Paintable c) (hr : Reprints c.terminal.frame t.frame)
    (hcells : t.frame.cellCache = c.terminal.frame.cellCache)
    (hrows : t.frame.rowDirty.length = c.terminal.frame.rowDirty.length)
    (hidle : t.echoEngine.unconfirmedInputs = []) (hoverlay : t.frame.overlayEnabled = false) :
    Paintable { c with terminal := t } := by
  refine ⟨⟨?_, ?_⟩, ⟨hr.cols ▸ h.narrow.cols, hcells ▸ h.narrow.cells⟩, hr.cols ▸ h.wide, hidle, hoverlay,
    h.prepared.reprints hr⟩
  · rw [hcells, hr.cols, hr.rows]
    exact h.sized.cells
  · rw [hrows, hr.rows]
    exact h.sized.rowDirty

/-- STEP: the console stays paintable. -/
theorem Paintable.perform (h : Paintable c) (hop : Watches c.terminal op)
    (hs : c.terminal.perform op = some t) : Paintable { c with terminal := t } := by
  have hsame : ∀ {t : ClientTerminal}, t.frame = c.terminal.frame → t.echoEngine.unconfirmedInputs = [] →
      Paintable { c with terminal := t } := by
    intro t hframe hidle
    refine h.of_reprints ?_ (by rw [hframe]) (by rw [hframe]) hidle (by rw [hframe]; exact h.overlay)
    rw [hframe]
    exact reprints_of_same rfl rfl rfl id rfl rfl fun _ _ => rfl
  have hmeasured : ∀ {t : ClientTerminal}, Remeasured c.terminal.frame t.frame →
      t.echoEngine = c.terminal.echoEngine → Paintable { c with terminal := t } := by
    intro t hm hecho
    exact h.of_reprints (hm.reprints h.overlay) hm.grid.cellCache (by rw [hm.rowDirty]) (hecho ▸ h.idle)
      (hm.overlayEnabled.trans h.overlay)
  cases op with
  | acknowledge ack =>
    have hack : c.terminal.acknowledge ack = some t := hs
    unfold ClientTerminal.acknowledge LocalEchoEngine.reconcileFrame at hack
    rw [h.idle] at hack
    obtain rfl := Option.some.inj hack
    exact hsame rfl rfl
  | applyFrame newState seq => exact h.applyFrame hop.1 hop.2 hs
  | abortPrediction =>
    obtain rfl := Option.some.inj ((abortPrediction_idle h.idle).symm.trans hs)
    exact hsame rfl rfl
  | setReconnecting reconnecting =>
    have hscreen := ClientTerminal.setReconnecting_sameScreen hs
    refine h.of_reprints (setReconnecting_reprints h.wide hs) hscreen.cellCache hscreen.rowDirty
      (hscreen.echoEngine ▸ h.idle) ?_
    obtain rfl | rfl | ⟨-, rfl⟩ := ClientTerminal.setReconnecting_cases hs <;> exact h.overlay
  | markDirty =>
    obtain rfl := Option.some.inj hs
    exact h.of_reprints (reprints_of_same rfl rfl rfl (fun _ => rfl) rfl rfl fun _ _ => rfl) rfl rfl h.idle
      h.overlay
  | recordRttLoss rttMs lossPct =>
    obtain rfl := Option.some.inj hs
    exact hmeasured (remeasured_recordRttLoss ..) rfl
  | recordBandwidthCompression kbS ratio =>
    obtain rfl := Option.some.inj hs
    exact hmeasured (remeasured_recordBandwidthCompression ..) rfl
  | recordFps fps =>
    obtain rfl := Option.some.inj hs
    exact hmeasured (remeasured_recordFps ..) rfl
  | predictInput bytes seq => exact hop.elim
  | toggleOverlay => exact hop.elim
  | consumeUpdates => exact hop.elim

/-- PAINT: it does not fail, and the host shows the frame. -/
theorem Paintable.refresh (h : Paintable c) : ∃ c', c.refresh = some c' ∧ Paintable c' ∧ c'.Shows ∧
    c'.terminal.frame.flagged = false := by
  obtain ⟨c', hrefresh, hiff, hecho, hframe⟩ := refresh_spec h.sized h.narrow
  have hshows := hiff.mpr h.prepared
  have hflag : c'.terminal.frame.flagged = false := by
    rcases hframe with heq | ⟨hflag, heq⟩
    · rw [heq]
      rfl
    · rw [heq]
      exact hflag
  have hprepared : c'.Prepared := by
    intro a b hcorner
    rw [underneath, (flagged_eq_false_iff.mp hflag).2]
    exact .inr (hshows a b hcorner)
  refine ⟨c', hrefresh, ?_, hshows, hflag⟩
  rcases hframe with heq | ⟨-, heq⟩
  · refine ⟨?_, ?_, ?_, hecho ▸ h.idle, ?_, hprepared⟩
    · rw [heq]
      exact ⟨h.sized.cells, (List.length_map _).trans h.sized.rowDirty⟩
    · rw [heq]
      exact ⟨h.narrow.cols, h.narrow.cells⟩
    · rw [heq]
      exact h.wide
    · rw [heq]
      exact h.overlay
  · exact ⟨heq ▸ h.sized, heq ▸ h.narrow, heq ▸ h.wide, hecho ▸ h.idle, heq ▸ h.overlay, hprepared⟩

/-- With nothing to paint the host shows the frame. -/
theorem Paintable.shows (h : Paintable c) (hflag : c.terminal.frame.flagged = false) : c.Shows := by
  intro a b hcorner
  obtain ⟨hd, hclear⟩ := flagged_eq_false_iff.mp hflag
  rcases h.prepared a b hcorner with hr | hsame
  · exact absurd (hd.symm.trans hr.1) Bool.false_ne_true
  · rw [underneath, hclear] at hsame
    exact hsame

end Console

end Rumsh.Client
