import Rumsh.Client.Host
import Rumsh.Client.Painting
import Rumsh.Client.Predictions

/-! The client's side of the screen, and what one refresh leaves on the host.

    After each event the painter prints the marked rows and both overlays over what the host shows already.
    The host shows the frame afterwards exactly if it was `Prepared`: what the paint does not print is there
    already, or is to be blank and was erased. `MarksUncovered` is what each event has to do for that. -/

namespace Rumsh.Client
open Rumsh.Schemes Rumsh.Protocol Utf8 ClientTerminalRenderer TerminalFrame

/-- The client's side of the screen: the mirror, the renderer's back buffer, and the host terminal. -/
structure Console where
  terminal : ClientTerminal
  backBuffer : TerminalFrame
  host : HostScreen

inductive ConsoleEvent where
  | applyFrame (newState : GridState) (serverSeq : ℕ)
  | setReconnecting (reconnecting : Bool)
  | toggleOverlay
  | recordRttLoss (rttMs : Option ℕ) (lossPct : Option Float32)
  | recordBandwidthCompression (kbS ratio : Float32)
  | recordFps (fps : ℕ)
  -- and `on_winch` with the size on return
  | suspend (cols rows : ℕ)
  | help (cols rows : ℕ)

namespace ConsoleEvent

/-- The grid of a new frame has cells one column wide, and at most `u16` columns. -/
def Narrow : ConsoleEvent → Prop
  | .applyFrame newState _ => newState.cols < 2 ^ 16 ∧ ∀ c ∈ newState.cells, NarrowCell c
  | _ => True

end ConsoleEvent

namespace Console

/-- A new session on the alternate screen, which is erased when it is entered. -/
def new (cols rows : ℕ) : Console :=
  { terminal := ClientTerminal.new cols rows, backBuffer := TerminalFrame.new 0 0
    host := { cells := fun _ _ => .blank, x := 0, y := 0, style := .plain } }

/-- `feed_stdin` marks the mirror, the alternate screen is entered again, and `on_winch` does to the mirror
    what `MirrorSession.onWinch_mirror` says. -/
def reenter (c : Console) : Option Console :=
  c.terminal.markDirty.abortPrediction.map fun terminal =>
    { c with terminal := terminal.markDirty, host := c.host.erased }

def handle (c : Console) : ConsoleEvent → Option Console
  | .applyFrame newState serverSeq =>
    (c.terminal.applyFrame newState serverSeq).map fun terminal => { c with terminal }
  | .setReconnecting reconnecting =>
    (c.terminal.setReconnecting reconnecting).map fun terminal => { c with terminal }
  | .toggleOverlay => some { c with terminal := c.terminal.toggleOverlay }
  | .recordRttLoss rttMs lossPct => some { c with terminal := c.terminal.recordRttLoss rttMs lossPct }
  | .recordBandwidthCompression kbS ratio =>
    some { c with terminal := c.terminal.recordBandwidthCompression kbS ratio }
  | .recordFps fps => some { c with terminal := c.terminal.recordFps fps }
  | .suspend _ _ | .help _ _ => c.reenter

/-- `consume_updates`, and `paint` if there is something to paint. -/
def refresh (c : Console) : Option Console :=
  let (terminal, backBuffer, updated) := c.terminal.consumeUpdates c.backBuffer
  if updated then
    match ClientTerminalRenderer.paint backBuffer with
    | .error _ => none
    | .ok (backBuffer, out, _) => some { terminal, backBuffer, host := c.host.exec out }
  else some { c with terminal, backBuffer }

def step (c : Console) (e : ConsoleEvent) : Option Console := (c.handle e).bind refresh

/-- The host erased, and the frame painted with every row marked. -/
def repainted (c : Console) : Option HostScreen :=
  match ClientTerminalRenderer.paint { c.terminal.frame with
    dirty := true, rowDirty := List.replicate c.terminal.frame.rows true } with
  | .error _ => none
  | .ok (_, out, _) => some (c.host.erased.exec out)

/-- The host shows what a full repaint shows, the bottom right cell aside. -/
def LooksRepainted (c : Console) : Prop :=
  ∃ h, c.repainted = some h ∧ ∀ a b, ¬ c.terminal.frame.IsCorner a b → c.host.cells a b = h.cells a b

/-! ### The condition -/

/-- No column of the overlay is uncovered, but under the banner or in the corner. -/
def StaysCovered (f f' : TerminalFrame) : Prop :=
  ∀ a b, f.overlayAt a b ≠ none → f'.overlayAt a b ≠ none ∨ f.bannerAt a b ≠ none ∨ f.IsCorner a b

/-- Something other than the overlays is to be painted when the host was erased: a cell that is not blank,
    or another cursor. -/
def BringsContent (f : TerminalFrame) (newState : GridState) : Prop :=
  (newState.cursorX, newState.cursorY, newState.cursorVisible) ≠ (f.cursorX, f.cursorY, f.cursorVisible) ∨
  ∃ y < newState.rows, ∃ x < newState.cols, ∃ cell, newState.cells[y * newState.cols + x]? = some cell ∧
    cell ≠ blankCell

/-- The event marks, or leaves alone, everything the paint after it does not print. -/
def MarksUncovered (c : Console) : ConsoleEvent → Prop
  | .applyFrame newState _ =>
    (newState.cols = c.terminal.frame.cols ∧ newState.rows = c.terminal.frame.rows) ∨
    (c.terminal.frame.overlayEnabled = false ∧ c.terminal.frame.reconnecting = false) ∨
    BringsContent c.terminal.frame newState
  | .setReconnecting reconnecting =>
    reconnecting = true ∨ c.terminal.frame.reconnecting = false ∨
    (0 < c.terminal.frame.rows ∧ ∀ a b, c.terminal.frame.cols ≤ a →
      c.terminal.frame.bannerAt a b ≠ none → c.terminal.frame.overlayAt a b ≠ none)
  | .toggleOverlay => c.terminal.frame.overlayEnabled = false
  | .recordRttLoss rttMs lossPct =>
    StaysCovered c.terminal.frame (c.terminal.recordRttLoss rttMs lossPct).frame
  | .recordBandwidthCompression kbS ratio =>
    StaysCovered c.terminal.frame (c.terminal.recordBandwidthCompression kbS ratio).frame
  | .recordFps fps => StaysCovered c.terminal.frame (c.terminal.recordFps fps).frame
  | .suspend _ _ | .help _ _ =>
    ∀ x y, x < c.terminal.frame.cols → y < c.terminal.frame.rows → ¬ c.terminal.frame.IsCorner x y →
      c.terminal.frame.overlaidAt x y = none → c.terminal.frame.gridAt x y = .blank

end Console

/-! ### The overlays are no cells of a grid -/

namespace TerminalFrame
variable {f f' : TerminalFrame} {a b : ℕ}

/-- Written in one of the terminal's own colours, as only the overlays are. -/
def IsLabel (cell : HostCell) : Prop :=
  cell.style.foreground = some .white ∨ cell.style.foreground = some .red

theorem style_textAt {gs : List Bytes} {style : HostStyle} {x y : ℕ} {cell : HostCell}
    (h : HostScreen.textAt gs style x y a b = some cell) : cell.style = style := by
  unfold HostScreen.textAt at h
  split at h
  · obtain ⟨g, -, rfl⟩ := Option.map_eq_some_iff.mp h
    rfl
  · cases h

theorem isLabel_overlaidAt {cell : HostCell} (h : f.overlaidAt a b = some cell) : IsLabel cell := by
  unfold overlaidAt overlayAt bannerAt at h
  rcases Option.or_eq_some_iff.mp h with h | ⟨-, h⟩
  · split at h
    · exact .inl (by rw [style_textAt h]; rfl)
    · cases h
  · split at h
    · exact .inr (by rw [style_textAt h]; rfl)
    · cases h

theorem not_isLabel_blank : ¬ IsLabel .blank := by
  rintro (h | h) <;> cases h

theorem not_isLabel_gridAt (f : TerminalFrame) (a b : ℕ) : ¬ IsLabel (f.gridAt a b) := by
  unfold gridAt
  split
  · cases f.cellAt a b with
    | none => exact not_isLabel_blank
    | some cell =>
      unfold IsLabel
      show ¬ (cell.fg.map Color.rgb = some .white ∨ cell.fg.map Color.rgb = some .red)
      cases cell.fg <;> simp
  · exact not_isLabel_blank

/-- What shows nothing laid over it is no label. -/
theorem shownAt_of_not_overlaid (h : f.overlaidAt a b = none) : f.shownAt a b = f.gridAt a b := by
  rw [shownAt, h, Option.getD_none]

/-- Outside the screen the grid shows nothing. -/
theorem Sized.gridAt_outside (hf : f.Sized) (h : ¬ (a < f.cols ∧ b < f.rows)) : f.gridAt a b = .blank := by
  unfold TerminalFrame.gridAt
  split
  · rename_i ha
    have hb : f.rows ≤ b := by omega
    rw [cellAt, List.getElem?_eq_none]
    · rfl
    · rw [hf.cells, Nat.mul_comm]
      exact (Nat.mul_le_mul_right _ hb).trans (Nat.le_add_right _ _)
  · rfl

theorem Sized.gridAt_of_blank (hf : f.Sized) (h : ∀ c ∈ f.cellCache, c = blankCell) (a b : ℕ) :
    f.gridAt a b = .blank := by
  by_cases hin : a < f.cols ∧ b < f.rows
  · obtain ⟨cell, hmem, -, heq⟩ := hf.gridAt hin.1 hin.2
    rw [heq, h cell hmem]
    decide
  · exact hf.gridAt_outside hin

theorem textAt_eq_none_iff {gs : List Bytes} {style : HostStyle} {x y : ℕ} :
    HostScreen.textAt gs style x y a b = none ↔ ¬ (x ≤ a ∧ a < x + gs.length ∧ b = y) := by
  unfold HostScreen.textAt
  split
  · simp only [Option.map_eq_none_iff, List.getElem?_eq_none_iff]
    omega
  · exact iff_of_true rfl (by omega)

/-- The columns of the banner. -/
theorem bannerAt_eq_none_iff : f.bannerAt a b = none ↔
    ¬ (f.reconnecting = true ∧ f.cols - 18 ≤ a ∧ a < f.cols - 18 + 17 ∧ b = f.rows - 1) := by
  unfold bannerAt
  split
  · rename_i h
    rw [textAt_eq_none_iff]
    simp [h, columns, bannerText]
  · rename_i h
    simp [h]

theorem padLeft_length (width : ℕ) (s : Text) : width ≤ (padLeft width s).length := by
  rw [padLeft, List.length_append, List.length_replicate]
  omega

/-- The overlay is longer than the banner. -/
theorem le_length_overlayText (f : TerminalFrame) : 45 ≤ (overlayText f).length := by
  have h₁ := padLeft_length 3 (Nat.toDigits 10 f.rttMs)
  have h₂ := padLeft_length 4 (formatFixed f.packetLossPct)
  have h₃ := padLeft_length 5 (formatFixed f.bandwidthKbS)
  have h₄ := padLeft_length 4 (formatFixed f.compressionRatio)
  have h₅ := padLeft_length 2 (Nat.toDigits 10 f.fps)
  simp only [overlayText, List.length_append, List.length_cons, List.length_nil]
  omega

theorem overlayAt_eq_none_iff : f.overlayAt a b = none ↔
    ¬ (f.overlayEnabled = true ∧ f.overlayX ≤ a ∧ a < f.overlayX + (overlayText f).length ∧ b = 0) := by
  unfold overlayAt
  split
  · rename_i h
    rw [textAt_eq_none_iff]
    simp [h, columns]
  · rename_i h
    simp [h]

theorem overlaidAt_eq_none_iff : f.overlaidAt a b = none ↔ f.overlayAt a b = none ∧ f.bannerAt a b = none :=
  Option.or_eq_none_iff

/-- An overlay is somewhere over the grid, beside the banner and the corner. -/
theorem exists_overlay (h : f.overlayEnabled = true) :
    ∃ a, f.overlayAt a 0 ≠ none ∧ f.bannerAt a 0 = none ∧ ¬ f.IsCorner a 0 := by
  have hlen := le_length_overlayText f
  simp only [ne_eq, overlayAt_eq_none_iff, bannerAt_eq_none_iff, not_not, IsCorner]
  by_cases hx : f.overlayX < f.cols - 18
  · exact ⟨f.overlayX, by simp [h]; omega, by omega, by omega⟩
  · exact ⟨f.overlayX + 44, by simp [h]; omega, by omega, by omega⟩

/-- So is a banner, beside the corner. -/
theorem exists_overlaid (h : ¬ (f.overlayEnabled = false ∧ f.reconnecting = false)) :
    ∃ a b, f.overlaidAt a b ≠ none ∧ ¬ f.IsCorner a b := by
  cases ho : f.overlayEnabled with
  | true =>
    obtain ⟨a, hover, -, hc⟩ := exists_overlay ho
    exact ⟨a, 0, fun hnone => hover (overlaidAt_eq_none_iff.mp hnone).1, hc⟩
  | false =>
    have hr : f.reconnecting = true := by simpa [ho] using h
    have hbanner : ∀ a, f.cols - 18 ≤ a → a < f.cols - 18 + 17 → f.overlaidAt a (f.rows - 1) ≠ none :=
      fun a hle hlt hnone =>
        bannerAt_eq_none_iff.mp (overlaidAt_eq_none_iff.mp hnone).2 ⟨hr, hle, hlt, rfl⟩
    by_cases hcols : f.cols = 1
    · exact ⟨1, f.rows - 1, hbanner 1 (by omega) (by omega), fun hc => by have := hc.1; omega⟩
    · exact ⟨f.cols - 18, f.rows - 1, hbanner _ le_rfl (by omega), fun hc => by have := hc.1; omega⟩

theorem isLabel_shownAt (h : f.overlaidAt a b ≠ none) : IsLabel (f.shownAt a b) := by
  obtain ⟨cell, hcell⟩ := Option.ne_none_iff_exists'.mp h
  rw [shownAt, hcell]
  exact isLabel_overlaidAt hcell

end TerminalFrame

/-! ### What a refresh leaves on the host -/

namespace Console
variable {c c' : Console}

/-- The paint prints it. -/
def Refreshed (f : TerminalFrame) (a b : ℕ) : Prop :=
  f.dirty = true ∧ (f.overlaidAt a b ≠ none ∨ f.Painted a b)

/-- The host shows the frame, the bottom right cell aside. -/
def Shows (c : Console) : Prop :=
  ∀ a b, ¬ c.terminal.frame.IsCorner a b → c.host.cells a b = c.terminal.frame.shownAt a b

/-- What the paint does not print is on the host, or erased, as it is to be. -/
def Prepared (c : Console) : Prop :=
  ∀ a b, ¬ c.terminal.frame.IsCorner a b → Refreshed c.terminal.frame a b ∨
    underneath c.host c.terminal.frame a b = c.terminal.frame.shownAt a b

theorem flagged_eq_false_iff {f : TerminalFrame} :
    f.flagged = false ↔ f.dirty = false ∧ f.clearRequested = false := Bool.or_eq_false_iff

theorem underneath_erased (h : HostScreen) (f : TerminalFrame) (a b : ℕ) :
    underneath h.erased f a b = .blank := by
  unfold underneath
  split <;> rfl

/-- REFRESH: it returns, and afterwards the host shows the frame exactly if it was prepared. -/
theorem refresh_spec (hf : c.terminal.frame.Sized) (hn : c.terminal.frame.Narrow) :
    ∃ c', c.refresh = some c' ∧ (c'.Shows ↔ c.Prepared) ∧ c'.terminal.echoEngine = c.terminal.echoEngine ∧
      (c'.terminal.frame = c.terminal.frame.wiped ∨
        c.terminal.frame.flagged = false ∧ c'.terminal.frame = c.terminal.frame) := by
  obtain ⟨f', out, updated, hpaint, hcells⟩ := exec_paint c.host hf hn
  have hshow : ∀ a b, (Refreshed c.terminal.frame a b →
        (c.host.exec out).cells a b = c.terminal.frame.shownAt a b) ∧
      (¬ Refreshed c.terminal.frame a b →
        (c.host.exec out).cells a b = underneath c.host c.terminal.frame a b) := by
    intro a b
    obtain ⟨hclean, hpainted, hother⟩ := hcells a b
    constructor
    · rintro ⟨hd, hp⟩
      by_cases hp' : c.terminal.frame.Painted a b
      · exact hpainted hd hp'
      · obtain ⟨cell, hcell⟩ := Option.ne_none_iff_exists'.mp (hp.resolve_right hp')
        rw [hother hd hp', shownAt, hcell]
        rfl
    · intro hno
      cases hd : c.terminal.frame.dirty with
      | false => exact hclean hd
      | true =>
        have hnone : c.terminal.frame.overlaidAt a b = none := by
          by_contra hsome
          exact hno ⟨hd, .inl hsome⟩
        rw [hother hd fun hp => hno ⟨hd, .inr hp⟩, hnone, Option.getD_none]
  have hiff : ∀ host : HostScreen, (∀ a b, host.cells a b = (c.host.exec out).cells a b) →
      ((∀ a b, ¬ c.terminal.frame.IsCorner a b → host.cells a b = c.terminal.frame.shownAt a b) ↔
        c.Prepared) := by
    intro host hhost
    refine forall₂_congr fun a b => imp_congr_right fun _ => ?_
    rw [hhost]
    by_cases hr : Refreshed c.terminal.frame a b
    · exact iff_of_true ((hshow a b).1 hr) (.inl hr)
    · rw [(hshow a b).2 hr]
      exact ⟨.inr, fun h => h.resolve_left hr⟩
  obtain ⟨-, htrue, hfalse⟩ := Painter.consumeUpdates_spec c.terminal c.backBuffer
  unfold refresh
  cases hflag : c.terminal.frame.flagged with
  | true =>
    rw [htrue hflag]
    dsimp only
    rw [if_pos rfl, hpaint]
    exact ⟨_, rfl, hiff _ fun _ _ => rfl, rfl, .inl rfl⟩
  | false =>
    have hoff := flagged_eq_false_iff.mp hflag
    rw [hfalse hflag]
    dsimp only
    rw [if_neg Bool.false_ne_true]
    refine ⟨_, rfl, hiff _ fun a b => ?_, rfl, .inr ⟨rfl, rfl⟩⟩
    rw [(hcells a b).1 hoff.1, underneath, hoff.2]
    rfl

/-- A full repaint shows the frame. -/
theorem looksRepainted_iff (hf : c.terminal.frame.Sized) (hn : c.terminal.frame.Narrow) :
    c.LooksRepainted ↔ c.Shows := by
  let f : TerminalFrame := { c.terminal.frame with
    dirty := true, rowDirty := List.replicate c.terminal.frame.rows true }
  obtain ⟨f', out, updated, hpaint, hcells⟩ := exec_paint c.host.erased (f := f)
    ⟨hf.cells, List.length_replicate⟩ ⟨hn.cols, hn.cells⟩
  have hrepainted : c.repainted = some (c.host.erased.exec out) := by
    rw [repainted, hpaint]
  have hshown : ∀ a b, ¬ c.terminal.frame.IsCorner a b →
      (c.host.erased.exec out).cells a b = c.terminal.frame.shownAt a b := by
    intro a b hcorner
    by_cases hp : f.Painted a b
    · exact (hcells a b).2.1 rfl hp
    · rw [(hcells a b).2.2 rfl hp, underneath_erased]
      show _ = (c.terminal.frame.overlaidAt a b).getD (c.terminal.frame.gridAt a b)
      rw [hf.gridAt_outside fun hin => hp ⟨hin.1, ?_, hcorner⟩]
      · rfl
      · show (List.replicate c.terminal.frame.rows true)[b]? = some true
        rw [List.getElem?_replicate, if_pos hin.2]
  constructor
  · rintro ⟨h, hh, hsame⟩ a b hcorner
    obtain rfl := Option.some.inj (hrepainted.symm.trans hh)
    rw [hsame a b hcorner, hshown a b hcorner]
  · intro hshows
    exact ⟨_, hrepainted, fun a b hcorner => (hshows a b hcorner).trans (hshown a b hcorner).symm⟩

/-- What holds after each event: the host shows the frame, nothing is pending, and no row is marked, or it
    is the blank screen of the start. -/
structure Tracks (c : Console) : Prop where
  sized : c.terminal.frame.Sized
  narrow : c.terminal.frame.Narrow
  echo : c.terminal.echoEngine.unconfirmedInputs = []
  clear : c.terminal.frame.clearRequested = false
  shows : c.Shows
  rests : (c.terminal.frame.dirty = false ∧ ∀ b, ¬ c.terminal.frame.rowMarked b) ∨
    c.terminal.frame.dirty = true ∧
      (c.terminal.frame.overlayEnabled = false ∧ c.terminal.frame.reconnecting = false) ∧
      ∀ a b, c.terminal.frame.gridAt a b = .blank

/-- What an event keeps, whether or not the host is prepared for the paint. -/
structure Handled (c c₁ : Console) : Prop where
  sized : c₁.terminal.frame.Sized
  narrow : c₁.terminal.frame.Narrow
  echo : c₁.terminal.echoEngine.unconfirmedInputs = []
  keptFlag : c.terminal.frame.dirty = true → c₁.terminal.frame.dirty = true
  quiet : c₁.terminal.frame.flagged = false → c₁.terminal.frame.rowDirty = c.terminal.frame.rowDirty

theorem Handled.refresh {c₁ : Console} (h : Tracks c) (hh : Handled c c₁) :
    ∃ c', c₁.refresh = some c' ∧ (c'.LooksRepainted ↔ c₁.Prepared) ∧ (c'.LooksRepainted → Tracks c') := by
  obtain ⟨c', hrefresh, hiff, hecho, hframe⟩ := refresh_spec hh.sized hh.narrow
  have hsized : c'.terminal.frame.Sized ∧ c'.terminal.frame.Narrow := by
    rcases hframe with heq | ⟨-, heq⟩
    · rw [heq]
      exact ⟨⟨hh.sized.cells, (List.length_map _).trans hh.sized.rowDirty⟩, hh.narrow.cols, hh.narrow.cells⟩
    · rw [heq]
      exact ⟨hh.sized, hh.narrow⟩
  rw [← looksRepainted_iff hsized.1 hsized.2] at hiff
  refine ⟨c', hrefresh, hiff, fun hlooks => ?_⟩
  refine ⟨hsized.1, hsized.2, hecho ▸ hh.echo, ?_, (looksRepainted_iff hsized.1 hsized.2).mp hlooks, .inl ?_⟩
  · rcases hframe with heq | ⟨hflag, heq⟩
    · rw [heq]
      rfl
    · rw [heq]
      exact (flagged_eq_false_iff.mp hflag).2
  rcases hframe with heq | ⟨hflag, heq⟩
  · refine ⟨by rw [heq]; rfl, fun b => ?_⟩
    rw [heq, rowMarked, wiped, List.getElem?_map]
    cases c₁.terminal.frame.rowDirty[b]? <;> simp
  · have hoff := flagged_eq_false_iff.mp hflag
    rw [heq]
    refine ⟨hoff.1, fun b hb => ?_⟩
    rcases h.rests with ⟨-, hmarks⟩ | ⟨hd, -⟩
    · rw [rowMarked, hh.quiet hflag] at hb
      exact hmarks b hb
    · rw [hh.keptFlag hd] at hoff
      exact absurd hoff.1 Bool.false_ne_true.symm

end Console

end Rumsh.Client
