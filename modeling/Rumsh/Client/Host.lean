import Rumsh.Client.Mirror
import Rumsh.Client.Renderer

/-! The screen of the host terminal, and what a paint leaves on it.

    The host is a matrix of cells that only the painter's commands change, and the erasing of the
    alternate screen. It has no edge: a text that runs off the grid stays to the right of it. What a
    command list does is told cell by cell, up to `exec_paint`: the overlays first, then the cells of the
    marked rows, then what was there. -/

namespace Rumsh.Client
open Rumsh.Schemes Rumsh.Protocol Utf8

structure HostStyle where
  bold : Bool
  italic : Bool
  underlined : Bool
  reverse : Bool
  foreground : Option Color
  background : Option Color
  deriving DecidableEq, Repr

namespace HostStyle

def plain : HostStyle :=
  { bold := false, italic := false, underlined := false, reverse := false, foreground := none
    background := none }

def set (s : HostStyle) : Attribute → HostStyle
  | .reset => plain
  | .bold => { s with bold := true }
  | .italic => { s with italic := true }
  | .underlined => { s with underlined := true }
  | .reverse => { s with reverse := true }

/-- An attribute set on a condition, field by field. -/
theorem set_if (s : HostStyle) (c : Prop) [Decidable c] :
    (if c then s.set .bold else s) = { s with bold := s.bold || decide c } ∧
    (if c then s.set .italic else s) = { s with italic := s.italic || decide c } ∧
    (if c then s.set .underlined else s) = { s with underlined := s.underlined || decide c } ∧
    (if c then s.set .reverse else s) = { s with reverse := s.reverse || decide c } := by
  by_cases h : c <;> simp [h, set]

end HostStyle

structure HostCell where
  text : Bytes
  style : HostStyle
  deriving DecidableEq, Repr

/-- An erased cell. -/
def HostCell.blank : HostCell := { text := [0x20], style := .plain }

/-- The cells, by column and row, and where and how the next text is written. -/
structure HostScreen where
  cells : ℕ → ℕ → HostCell
  x : ℕ
  y : ℕ
  style : HostStyle

namespace HostScreen

/-- Everything erased. -/
def erased (h : HostScreen) : HostScreen := { h with cells := fun _ _ => .blank }

/-- One grapheme, one column wide. -/
def put (h : HostScreen) (g : Bytes) : HostScreen :=
  { h with
    cells := fun a b => if a = h.x ∧ b = h.y then { text := g, style := h.style } else h.cells a b
    x := h.x + 1 }

def perform (h : HostScreen) : PaintCommand → HostScreen
  | .clear => h.erased
  | .moveTo x y => { h with x, y }
  | .setAttribute a => { h with style := h.style.set a }
  | .setForeground c => { h with style := { h.style with foreground := some c } }
  | .setBackground c => { h with style := { h.style with background := some c } }
  | .write graphemes => graphemes.foldl put h
  | .show | .hide => h

def exec (h : HostScreen) (out : List PaintCommand) : HostScreen := out.foldl perform h

@[simp] theorem exec_nil (h : HostScreen) : h.exec [] = h := rfl

@[simp] theorem exec_cons (h : HostScreen) (c : PaintCommand) (out : List PaintCommand) :
    h.exec (c :: out) = (h.perform c).exec out := rfl

theorem exec_append (h : HostScreen) (out out' : List PaintCommand) :
    h.exec (out ++ out') = (h.exec out).exec out' := List.foldl_append

/-- The cell of a text that starts at a place. -/
def textAt (gs : List Bytes) (style : HostStyle) (startX startY a b : ℕ) : Option HostCell :=
  if startX ≤ a ∧ b = startY then gs[a - startX]?.map fun text => { text, style } else none

/-- WRITE: a text covers one column for each grapheme, and nothing else changes. -/
theorem perform_write (gs : List Bytes) : ∀ h : HostScreen,
    (h.perform (.write gs)).cells = (fun a b => (textAt gs h.style h.x h.y a b).getD (h.cells a b)) ∧
    (h.perform (.write gs)).style = h.style := by
  show ∀ h : HostScreen, (gs.foldl put h).cells = _ ∧ (gs.foldl put h).style = _
  induction gs with
  | nil =>
    intro h
    refine ⟨funext fun a => funext fun b => ?_, rfl⟩
    simp [textAt]
  | cons g gs ih =>
    intro h
    obtain ⟨hcells, hstyle⟩ := ih (h.put g)
    refine ⟨?_, hstyle⟩
    rw [List.foldl_cons, hcells]
    funext a b
    show (textAt gs h.style (h.x + 1) h.y a b).getD
      (if a = h.x ∧ b = h.y then { text := g, style := h.style } else h.cells a b) = _
    unfold textAt
    by_cases hb : b = h.y
    · rcases Nat.lt_trichotomy a h.x with hlt | rfl | hgt
      · rw [if_neg (by omega), if_neg (by omega), if_neg (by omega)]
      · simp [hb]
      · rw [if_pos ⟨by omega, hb⟩, if_neg (by omega), if_pos ⟨hgt.le, hb⟩,
          show a - h.x = a - (h.x + 1) + 1 by omega, List.getElem?_cons_succ]
    · rw [if_neg (fun h => hb h.2), if_neg (fun h => hb h.2), if_neg (fun h => hb h.2)]

end HostScreen

/-! ### How a cell looks -/

open ClientTerminalRenderer

/-- The style `apply_style` sets. -/
def styleLook (style : CellStyle) : HostStyle :=
  let (fg, bg, flags) := style
  { bold := decide (flags &&& STYLE_BOLD ≠ 0), italic := decide (flags &&& STYLE_ITALIC ≠ 0)
    underlined := decide (flags &&& STYLE_UNDERLINE ≠ 0), reverse := decide (flags &&& STYLE_INVERSE ≠ 0)
    foreground := fg.map .rgb, background := bg.map .rgb }

/-- A cell of the grid on the host. -/
def cellLook (cell : LocalCellData) : HostCell :=
  { text := cell.graphemes.asStr.getD [], style := styleLook (styleOf cell) }

/-- A style flag adds its attribute. -/
theorem exec_flag (h : HostScreen) (flags bit : UInt8) (a : Attribute) :
    h.exec (flag flags bit a) =
      { h with style := if flags &&& bit ≠ 0 then h.style.set a else h.style } := by
  unfold flag
  split <;> rfl

theorem exec_applyStyle (h : HostScreen) (style : CellStyle) :
    h.exec (applyStyle style) = { h with style := styleLook style } := by
  obtain ⟨fg, bg, flags⟩ := style
  simp only [applyStyle, HostScreen.exec_append, exec_flag]
  rw [styleLook]
  simp only [HostScreen.exec_cons, HostScreen.exec_nil, HostScreen.perform, (HostStyle.set_if _ _).1,
    (HostStyle.set_if _ _).2.1, (HostStyle.set_if _ _).2.2.1, (HostStyle.set_if _ _).2.2.2]
  cases fg <;> cases bg <;> rfl

/-- A cell whose text is one column wide. -/
def NarrowCell (cell : LocalCellData) : Prop :=
  ∃ g, cell.graphemes.asStr = some g ∧ IsUtf8 g ∧ graphemeWidth g = 1

theorem narrow_blankCell : NarrowCell blankCell := ⟨[0x20], by decide, ⟨[' '], by decide⟩, by decide⟩

theorem NarrowCell.read {cell : LocalCellData} (h : NarrowCell cell) :
    readCell cell = .ok ((cellLook cell).text, 1) ∧ (cellLook cell).text ≠ [] := by
  obtain ⟨g, hg, hutf, hwidth⟩ := h
  have htext : (cellLook cell).text = g := by rw [cellLook, hg, Option.getD_some]
  rw [htext]
  constructor
  · rw [readCell, hg]
    simp [hutf, hwidth]
  · rintro rfl
    exact absurd hwidth (by decide)

/-! ### What a frame shows -/

namespace TerminalFrame

/-- The bottom right cell, which is never painted. -/
def IsCorner (f : TerminalFrame) (a b : ℕ) : Prop := a + 1 = f.cols ∧ b + 1 = f.rows

/-- What the grid shows at a place; blank outside. -/
def gridAt (f : TerminalFrame) (a b : ℕ) : HostCell :=
  if a < f.cols then ((f.cellAt a b).map cellLook).getD .blank else .blank

def bannerStyle : HostStyle := { HostStyle.plain with foreground := some .red, bold := true }

def overlayStyle : HostStyle :=
  { HostStyle.plain with
    foreground := some .white, background := some (.rgb { r := 60, g := 60, b := 60 }), bold := true }

/-- The column the overlay starts in; the length of its text is a `u16`. -/
def overlayX (f : TerminalFrame) : ℕ := f.cols - (encode (overlayText f)).length % 2 ^ 16

def bannerAt (f : TerminalFrame) (a b : ℕ) : Option HostCell :=
  if f.reconnecting then
    HostScreen.textAt (columns bannerText) bannerStyle (f.cols - 18) (f.rows - 1) a b
  else none

def overlayAt (f : TerminalFrame) (a b : ℕ) : Option HostCell :=
  if f.overlayEnabled then HostScreen.textAt (columns (overlayText f)) overlayStyle f.overlayX 0 a b
  else none

/-- What lies over the grid; the overlay is painted last. -/
def overlaidAt (f : TerminalFrame) (a b : ℕ) : Option HostCell := (f.overlayAt a b).or (f.bannerAt a b)

def shownAt (f : TerminalFrame) (a b : ℕ) : HostCell := (f.overlaidAt a b).getD (f.gridAt a b)

/-- Its row is marked, so the cell is painted. -/
def Painted (f : TerminalFrame) (a b : ℕ) : Prop := a < f.cols ∧ f.rowMarked b ∧ ¬ f.IsCorner a b

/-- A frame whose every cell is one column wide, on a screen that is at most `u16` columns wide. -/
structure Narrow (f : TerminalFrame) : Prop where
  cols : f.cols < 2 ^ 16
  cells : ∀ c ∈ f.cellCache, NarrowCell c

theorem Sized.gridAt {f : TerminalFrame} (hf : f.Sized) {x y : ℕ} (hx : x < f.cols) (hy : y < f.rows) :
    ∃ cell ∈ f.cellCache, f.cellCache[y * f.cols + x]? = some cell ∧ f.gridAt x y = cellLook cell := by
  have hlt := hf.index_lt hx hy
  refine ⟨_, List.getElem_mem hlt, List.getElem?_eq_getElem hlt, ?_⟩
  rw [TerminalFrame.gridAt, if_pos hx, cellAt, List.getElem?_eq_getElem hlt]
  rfl

end TerminalFrame

/-! ### The rows -/

namespace ClientTerminalRenderer
open TerminalFrame
variable {h : HostScreen} {f : TerminalFrame} {p : Pen} {x y : ℕ}

/-- The pen is where the painter takes it to be, and writes in the style it takes to be active. -/
structure Pen.At (h : HostScreen) (p : Pen) (x y : ℕ) : Prop where
  place : p.cursorMoved = true → (h.exec p.out).x = x ∧ (h.exec p.out).y = y
  style : ∀ st, p.activeStyle = some st → (h.exec p.out).style = styleLook st

theorem Pen.At.moveTo (hp : p.At h x y) :
    h.exec (p.moveTo x y).out = { h.exec p.out with x, y } ∧ (p.moveTo x y).cursorMoved = true ∧
      (p.moveTo x y).activeStyle = p.activeStyle := by
  unfold Pen.moveTo
  split
  · rename_i hm
    obtain ⟨hx, hy⟩ := hp.place hm
    exact ⟨by rw [← hx, ← hy], hm, rfl⟩
  · exact ⟨HostScreen.exec_append .., rfl, rfl⟩

theorem Pen.exec_setStyle (hp : ∀ st, p.activeStyle = some st → (h.exec p.out).style = styleLook st)
    (st : CellStyle) :
    h.exec (p.setStyle st).out = { h.exec p.out with style := styleLook st } ∧
      (p.setStyle st).cursorMoved = p.cursorMoved ∧ (p.setStyle st).activeStyle = some st := by
  unfold Pen.setStyle
  split
  · refine ⟨?_, rfl, rfl⟩
    show h.exec (p.out ++ applyStyle st) = _
    rw [HostScreen.exec_append, exec_applyStyle]
  · rename_i hst
    exact ⟨by rw [← hp st (not_not.mp hst)], rfl, not_not.mp hst⟩

/-- A cell is put where it belongs, as it looks. -/
theorem exec_paintCell (hp : p.At h x y) (hc : ¬ (x = f.cols - 1 ∧ y = f.rows - 1))
    (cell : LocalCellData) {g : Bytes} (hg : g ≠ []) :
    h.exec (paintCell f x y cell g p).out =
      ({ h.exec p.out with x, y, style := styleLook (styleOf cell) } : HostScreen).put g ∧
    (paintCell f x y cell g p).At h (x + 1) y := by
  obtain ⟨hmove, hmoved, hactive⟩ := hp.moveTo
  obtain ⟨hset, hmoved', hactive'⟩ := Pen.exec_setStyle (h := h) (p := p.moveTo x y)
    (fun st hst => by rw [hmove]; exact hp.style st (hactive ▸ hst)) (styleOf cell)
  have hout : h.exec (paintCell f x y cell g p).out =
      ({ h.exec p.out with x, y, style := styleLook (styleOf cell) } : HostScreen).put g := by
    rw [paintCell, if_neg hc, Pen.print, if_neg hg]
    show h.exec (_ ++ [.write [g]]) = _
    rw [HostScreen.exec_append, hset, hmove]
    rfl
  have hpen : (paintCell f x y cell g p).activeStyle = some (styleOf cell) := by
    rw [paintCell, if_neg hc, Pen.print, if_neg hg]
    exact hactive'
  refine ⟨hout, fun _ => ?_, fun st hst => ?_⟩
  · rw [hout]
    exact ⟨rfl, rfl⟩
  · rw [hout]
    obtain rfl := Option.some.inj (hpen.symm.trans hst)
    rfl

/-- RUN: the rest of a row, from any column. -/
theorem exec_paintCells (hf : f.Sized) (hn : f.Narrow) (hy : y < f.rows) (turns : ℕ) :
    ∀ (x : ℕ) (p : Pen), x + turns = f.cols → p.At h x y → ∃ p', paintCells f y turns x p = .ok p' ∧
      (∀ st, p'.activeStyle = some st → (h.exec p'.out).style = styleLook st) ∧
      ∀ a b, (b = y ∧ x ≤ a ∧ a < f.cols ∧ ¬ f.IsCorner a b →
          (h.exec p'.out).cells a b = f.gridAt a b) ∧
        (¬ (b = y ∧ x ≤ a ∧ a < f.cols ∧ ¬ f.IsCorner a b) →
          (h.exec p'.out).cells a b = (h.exec p.out).cells a b) := by
  induction turns with
  | zero =>
    intro x p hx hp
    rw [paintCells, if_neg (by omega)]
    exact ⟨p, rfl, hp.style, fun a b => ⟨fun hc => by omega, fun _ => rfl⟩⟩
  | succ turns ih =>
    intro x p hx hp
    have hlt : x < f.cols := by omega
    obtain ⟨cell, hmem, hcell, hgrid⟩ := hf.gridAt hlt hy
    obtain ⟨hread, hne⟩ := (hn.cells cell hmem).read
    have hwrap : (x + 1) % 2 ^ 16 = x + 1 := Nat.mod_eq_of_lt (by have := hn.cols; omega)
    rw [paintCells, if_pos hlt, hcell]
    dsimp only
    rw [hread]
    dsimp only
    rw [hwrap]
    by_cases hc : x = f.cols - 1 ∧ y = f.rows - 1
    · -- the corner ends the row
      rw [paintCell, if_pos hc]
      obtain rfl : turns = 0 := by omega
      rw [paintCells, if_neg (by omega)]
      refine ⟨p, rfl, hp.style, fun a b => ⟨fun hhere => ?_, fun _ => rfl⟩⟩
      obtain ⟨hb, hxa, ha, hna⟩ := hhere
      exact absurd ⟨by omega, by omega⟩ hna
    · obtain ⟨hout, hat⟩ := exec_paintCell hp hc cell hne
      obtain ⟨p', hp', hstyle, hcells⟩ := ih (x + 1) _ (by omega) hat
      refine ⟨p', hp', hstyle, fun a b => ?_⟩
      obtain ⟨hin, hout'⟩ := hcells a b
      by_cases hhere : a = x ∧ b = y
      · obtain ⟨rfl, rfl⟩ := hhere
        have hcell' : (h.exec p'.out).cells a b = f.gridAt a b := by
          rw [hout' (by omega), hout, hgrid]
          exact if_pos ⟨rfl, rfl⟩
        refine ⟨fun _ => hcell', fun hno => absurd ⟨rfl, le_rfl, hlt, fun hcorner => hc ?_⟩ hno⟩
        exact ⟨by have := hcorner.1; omega, by have := hcorner.2; omega⟩
      · constructor
        · rintro ⟨rfl, hxa, ha, hna⟩
          exact hin ⟨rfl, by omega, ha, hna⟩
        · intro hno
          rw [hout' (fun hyes => hno ⟨hyes.1, by omega, hyes.2.2⟩), hout]
          exact if_neg hhere

/-- RUN: the rows that are marked are painted, and lose their marks. -/
theorem exec_paintRows (ys : List ℕ) : ∀ {f : TerminalFrame} (p : Pen) (b : Bool), f.Sized → f.Narrow →
    ys.Nodup → (∀ y ∈ ys, y < f.rows) →
    (∀ st, p.activeStyle = some st → (h.exec p.out).style = styleLook st) →
    ∃ rowDirty p' b', paintRows f p b ys = .ok ({ f with rowDirty }, p', b') ∧
      ∀ a b, (b ∈ ys ∧ f.Painted a b → (h.exec p'.out).cells a b = f.gridAt a b) ∧
        (¬ (b ∈ ys ∧ f.Painted a b) → (h.exec p'.out).cells a b = (h.exec p.out).cells a b) := by
  induction ys with
  | nil =>
    intro f p b _ _ _ _ _
    exact ⟨f.rowDirty, p, b, rfl, fun a b => ⟨fun hb => absurd hb.1 List.not_mem_nil, fun _ => rfl⟩⟩
  | cons y ys ih =>
    intro f p b hf hn hnodup hys hp
    obtain ⟨hy, hys⟩ := List.forall_mem_cons.mp hys
    obtain ⟨hnot, hnodup⟩ := List.nodup_cons.mp hnodup
    have hlt : y < f.rowDirty.length := hf.rowDirty ▸ hy
    rw [paintRows, List.getElem?_eq_getElem hlt]
    cases hmark : f.rowDirty[y] with
    | false =>
      obtain ⟨rowDirty, p', b', hrun, hcells⟩ := ih p b hf hn hnodup hys hp
      refine ⟨rowDirty, p', b', hrun, fun a b => ⟨fun hhere => ?_, fun hno => ?_⟩⟩
      · obtain ⟨hb, hpaint⟩ := hhere
        rcases List.mem_cons.mp hb with rfl | hb
        · have hmarked := hpaint.2.1
          rw [rowMarked, List.getElem?_eq_getElem hlt, hmark] at hmarked
          cases hmarked
        · exact (hcells a b).1 ⟨hb, hpaint⟩
      · exact (hcells a b).2 fun hyes => hno ⟨List.mem_cons_of_mem _ hyes.1, hyes.2⟩
    | true =>
      obtain ⟨p₁, hrow, hstyle, hcells₁⟩ := exec_paintCells (h := h) hf hn hy f.cols 0
        { p with cursorMoved := false } (Nat.zero_add _)
        ⟨fun hmoved => absurd hmoved Bool.false_ne_true, hp⟩
      let f₁ : TerminalFrame := { f with rowDirty := f.rowDirty.set y false }
      have hf₁ : f₁.Sized := ⟨hf.cells, List.length_set.trans hf.rowDirty⟩
      obtain ⟨rowDirty, p', b', hrun, hcells⟩ := ih (f := f₁) p₁ true hf₁ ⟨hn.cols, hn.cells⟩ hnodup hys
        hstyle
      dsimp only
      rw [hrow]
      refine ⟨rowDirty, p', b', hrun, fun a b => ?_⟩
      have hsame : b ∈ ys ∧ f₁.Painted a b ↔ b ∈ ys ∧ f.Painted a b := by
        refine and_congr_right fun hb => ?_
        have hne : y ≠ b := fun heq => hnot (heq ▸ hb)
        show _ ∧ (f.rowDirty.set y false)[b]? = some true ∧ _ ↔ _
        rw [List.getElem?_set_ne hne]
        exact Iff.rfl
      obtain ⟨hin, hout⟩ := hcells a b
      obtain ⟨hin₁, hout₁⟩ := hcells₁ a b
      constructor
      · rintro ⟨hb, hpaint⟩
        by_cases hlater : b ∈ ys
        · exact hin (hsame.mpr ⟨hlater, hpaint⟩)
        · rw [hout fun hyes => hlater hyes.1]
          rcases List.mem_cons.mp hb with rfl | hb
          · exact hin₁ ⟨rfl, Nat.zero_le _, hpaint.1, hpaint.2.2⟩
          · exact absurd hb hlater
      · intro hno
        rw [hout fun hyes => hno ⟨List.mem_cons_of_mem _ hyes.1, (hsame.mp hyes).2⟩, hout₁]
        rintro ⟨rfl, -, ha, hna⟩
        refine hno ⟨List.mem_cons_self .., ha, ?_, hna⟩
        rw [rowMarked, List.getElem?_eq_getElem hlt, hmark]

/-! ### The overlays -/

theorem exec_paintBanner (h : HostScreen) (f : TerminalFrame) :
    (h.exec (paintBanner f)).cells = fun a b => (f.bannerAt a b).getD (h.cells a b) := by
  unfold paintBanner bannerAt
  generalize columns bannerText = gs
  cases f.reconnecting with
  | false => rfl
  | true =>
    simp only [if_true, HostScreen.exec_cons, HostScreen.exec_nil]
    rw [(HostScreen.perform_write gs _).1]
    rfl

theorem exec_paintOverlay (h : HostScreen) (f : TerminalFrame) :
    (h.exec (paintOverlay f)).cells = fun a b => (f.overlayAt a b).getD (h.cells a b) := by
  unfold paintOverlay overlayAt overlayX
  generalize overlayText f = text
  cases f.overlayEnabled with
  | false => rfl
  | true =>
    simp only [if_true, HostScreen.exec_cons, HostScreen.exec_nil]
    rw [show ∀ h : HostScreen, (h.perform (.setAttribute .reset)).cells = h.cells from fun _ => rfl,
      (HostScreen.perform_write (columns text) _).1]
    rfl

/-- Moving, showing and hiding the cursor leaves the cells. -/
theorem exec_cursor (h : HostScreen) (x y : ℕ) (visible : Bool) :
    (h.exec [.moveTo x y, if visible then .show else .hide]).cells = h.cells := by
  cases visible <;> rfl

/-! ### A paint -/

/-- What is on the host where a paint prints nothing. -/
def underneath (h : HostScreen) (f : TerminalFrame) (a b : ℕ) : HostCell :=
  if f.clearRequested then .blank else h.cells a b

/-- PAINT: it returns, and prints the overlays and the cells of the marked rows. -/
theorem exec_paint (h : HostScreen) (hf : f.Sized) (hn : f.Narrow) :
    ∃ f' out b, paint f = .ok (f', out, b) ∧ ∀ a b,
      (f.dirty = false → (h.exec out).cells a b = underneath h f a b) ∧
      (f.dirty = true → f.Painted a b → (h.exec out).cells a b = f.shownAt a b) ∧
      (f.dirty = true → ¬ f.Painted a b →
        (h.exec out).cells a b = (f.overlaidAt a b).getD (underneath h f a b)) := by
  have hclear : ∀ a b, (h.exec (if f.clearRequested then [PaintCommand.clear] else [])).cells a b =
      underneath h f a b := by
    intro a b
    unfold underneath
    split <;> rfl
  unfold paint
  dsimp only
  cases hd : f.dirty with
  | false => exact ⟨_, _, _, rfl, fun a b => ⟨fun _ => hclear a b, nofun, nofun⟩⟩
  | true =>
    let f₁ : TerminalFrame := { f with clearRequested := false, dirty := false }
    obtain ⟨rowDirty, p, updated, hrows, hcells⟩ := exec_paintRows (h := h) (List.range f.rows) (f := f₁)
      { out := if f.clearRequested then [PaintCommand.clear] else [], activeStyle := none
        cursorMoved := false } false ⟨hf.cells, hf.rowDirty⟩ ⟨hn.cols, hn.cells⟩ List.nodup_range
      (fun y hy => List.mem_range.mp hy) nofun
    rw [hrows]
    have hout : ∀ a b, (h.exec (p.out ++ paintBanner { f₁ with rowDirty } ++
        paintOverlay { f₁ with rowDirty } ++
          [.moveTo f₁.cursorX f₁.cursorY, if f₁.cursorVisible then .show else .hide])).cells a b =
        (f.overlaidAt a b).getD ((h.exec p.out).cells a b) := by
      intro a b
      rw [HostScreen.exec_append, HostScreen.exec_append, HostScreen.exec_append, exec_cursor,
        exec_paintOverlay, exec_paintBanner]
      show (f.overlayAt a b).getD ((f.bannerAt a b).getD _) = _
      rw [overlaidAt]
      cases f.overlayAt a b <;> rfl
    refine ⟨_, _, _, rfl, fun a b => ⟨nofun, fun _ hpaint => ?_, fun _ hno => ?_⟩⟩
    · have hb : b < f.rows := by
        rw [← hf.rowDirty]
        exact (List.getElem?_eq_some_iff.mp hpaint.2.1).1
      rw [hout, (hcells a b).1 ⟨List.mem_range.mpr hb, hpaint⟩]
      rfl
    · rw [hout, (hcells a b).2 fun hyes => hno hyes.2, hclear]

end ClientTerminalRenderer

end Rumsh.Client
