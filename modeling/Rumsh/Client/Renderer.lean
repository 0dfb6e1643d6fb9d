import Rumsh.Protocol.Grapheme
import Rumsh.Client.Terminal

/-! The painter: `ClientTerminalRenderer` of `src/client/terminal.rs`.

    `paint` turns the marked rows of its back buffer into terminal commands, and prints the two overlays
    on top. It stops at an index out of bounds and at a cell whose text cannot be read. The column is a
    `u16`, so a wide character in the last column of the widest screen starts the row over, and `paint`
    does not return. -/

namespace Rumsh.Client
open Rumsh.Schemes Rumsh.Protocol Utf8

inductive Color where
  | rgb (c : RgbColorUpdate)
  | red
  | white
  deriving DecidableEq, Repr

inductive Attribute where
  | reset
  | bold
  | italic
  | underlined
  | reverse
  deriving DecidableEq, Repr

/-- What is written to the terminal. A text is given by the graphemes in it, one for each column. -/
inductive PaintCommand where
  | clear
  | moveTo (x y : ℕ)
  | setAttribute (a : Attribute)
  | setForeground (c : Color)
  | setBackground (c : Color)
  | write (graphemes : List Bytes)
  | show
  | hide
  deriving DecidableEq, Repr

/-- Why `paint` does not return. -/
inductive PaintStop where
  -- `cell_cache` or `row_dirty`
  | index
  -- a cell's slice is out of bounds, or its text is no UTF-8 and nothing is defined any more
  | unreadable
  -- the row never ends
  | endless
  deriving DecidableEq, Repr

/-! ### Texts -/

/-- The scripts and symbols that take two columns. -/
def isWide (c : Char) : Bool :=
  let val := c.toNat
  (0x4e00 ≤ val && val ≤ 0x9fff) || (0xac00 ≤ val && val ≤ 0xd7af) || (0x3000 ≤ val && val ≤ 0x303f) ||
    (0x3040 ≤ val && val ≤ 0x30ff) || (0xff00 ≤ val && val ≤ 0xffef) || (0x1f300 ≤ val && val ≤ 0x1f9ff)

/-- `grapheme_width`: that of the first character. -/
def graphemeWidth (g : Bytes) : ℕ :=
  match firstChar g with
  | none => 0
  | some c => if isWide c then 2 else 1

/-- The text of a cell and its width. -/
def readCell (cell : LocalCellData) : Except PaintStop (Bytes × ℕ) :=
  match cell.graphemes.asStr with
  | none => .error .unreadable
  | some g => if IsUtf8 g then .ok (g, max (graphemeWidth g) 1) else .error .unreadable

/-- A number of tenths rounded to the nearest, halves to the even one. -/
def roundHalfEven (num den : ℕ) : ℕ :=
  if num % den * 2 > den ∨ (num % den * 2 = den ∧ num / den % 2 = 1) then num / den + 1 else num / den

/-- `{:.1}` of an `f32`. -/
def formatFixed (x : Float32) : Text :=
  let bits := x.toBits.toNat
  let sign := if bits / 2 ^ 31 = 1 then ['-'] else []
  let exponent := bits / 2 ^ 23 % 2 ^ 8
  let fraction := bits % 2 ^ 23
  if exponent = 255 then
    if fraction = 0 then sign ++ ['i', 'n', 'f'] else ['N', 'a', 'N']
  else
    -- the value is `mantissa * 2 ^ (scale - 150)`
    let mantissa := if exponent = 0 then fraction else fraction + 2 ^ 23
    let scale := max exponent 1
    let tenths := roundHalfEven (mantissa * 10 * 2 ^ scale) (2 ^ 150)
    sign ++ Nat.toDigits 10 (tenths / 10) ++ ['.'] ++ Nat.toDigits 10 (tenths % 10)

/-- `{:>width}` -/
def padLeft (width : ℕ) (s : Text) : Text := List.replicate (width - s.length) ' ' ++ s

namespace ClientTerminalRenderer

/-! ### Cells -/

abbrev CellStyle := Option RgbColorUpdate × Option RgbColorUpdate × UInt8

def styleOf (cell : LocalCellData) : CellStyle := (cell.fg, cell.bg, cell.styleFlags)

def flag (flags bit : UInt8) (a : Attribute) : List PaintCommand :=
  if flags &&& bit ≠ 0 then [.setAttribute a] else []

/-- `apply_style` -/
def applyStyle (style : CellStyle) : List PaintCommand :=
  let (fg, bg, styleFlags) := style
  [.setAttribute .reset] ++ flag styleFlags STYLE_BOLD .bold ++ flag styleFlags STYLE_ITALIC .italic ++
    flag styleFlags STYLE_UNDERLINE .underlined ++ flag styleFlags STYLE_INVERSE .reverse ++
    (fg.map fun c => PaintCommand.setForeground (.rgb c)).toList ++
    (bg.map fun c => PaintCommand.setBackground (.rgb c)).toList

/-- What was written, the style that is active, and whether the cursor was moved to this row. -/
structure Pen where
  out : List PaintCommand
  activeStyle : Option CellStyle
  cursorMoved : Bool

namespace Pen

def write (p : Pen) (commands : List PaintCommand) : Pen := { p with out := p.out ++ commands }

def moveTo (p : Pen) (x y : ℕ) : Pen :=
  if p.cursorMoved then p else { p.write [.moveTo x y] with cursorMoved := true }

def setStyle (p : Pen) (style : CellStyle) : Pen :=
  if p.activeStyle ≠ some style then { p.write (applyStyle style) with activeStyle := some style } else p

def print (p : Pen) (g : Bytes) : Pen := if g = [] then p else p.write [.write [g]]

end Pen

/-- One cell of a row; the bottom right one is not painted. -/
def paintCell (f : TerminalFrame) (x y : ℕ) (cell : LocalCellData) (g : Bytes) (p : Pen) : Pen :=
  if x = f.cols - 1 ∧ y = f.rows - 1 then p
  else ((p.moveTo x y).setStyle (styleOf cell)).print g

/-- The `while` loop over a row. Every turn moves right, so it ends within a turn for each column or not at
    all. -/
def paintCells (f : TerminalFrame) (y : ℕ) : ℕ → ℕ → Pen → Except PaintStop Pen
  | 0, x, p => if x < f.cols then .error .endless else .ok p
  | turns + 1, x, p =>
    if x < f.cols then
      match f.cellCache[y * f.cols + x]? with
      | none => .error .index
      | some cell =>
        match readCell cell with
        | .error e => .error e
        | .ok (g, width) =>
          paintCells f y turns ((x + width) % 2 ^ 16) (paintCell f x y cell g p)
    else .ok p

/-- The loop over the rows; a row painted is no longer marked. The flag says whether there was one. -/
def paintRows (f : TerminalFrame) (p : Pen) (realUpdate : Bool) :
    List ℕ → Except PaintStop (TerminalFrame × Pen × Bool)
  | [] => .ok (f, p, realUpdate)
  | y :: ys =>
    match f.rowDirty[y]? with
    | none => .error .index
    | some false => paintRows f p realUpdate ys
    | some true =>
      match paintCells f y f.cols 0 { p with cursorMoved := false } with
      | .error e => .error e
      | .ok p => paintRows { f with rowDirty := f.rowDirty.set y false } p true ys

/-! ### The overlays -/

/-- A text of the program's own, one column for each character. -/
def columns (s : Text) : List Bytes := s.map String.utf8EncodeChar

def bannerText : Text :=
  ['[', 'R', 'e', 'c', 'o', 'n', 'n', 'e', 'c', 't', 'i', 'n', 'g', '.', '.', '.', ']']

/-- The banner of a lost connection, on the last row. -/
def paintBanner (f : TerminalFrame) : List PaintCommand :=
  if f.reconnecting then
    [.moveTo (f.cols - 18) (f.rows - 1), .setAttribute .reset, .setForeground .red, .setAttribute .bold,
      .write (columns bannerText)]
  else []

/-- The text of the debugging overlay. -/
def overlayText (f : TerminalFrame) : Text :=
  [' ', '['] ++ padLeft 3 (Nat.toDigits 10 f.rttMs) ++ ['m', 's', ' ', '|', ' '] ++
    padLeft 4 (formatFixed f.packetLossPct) ++ ['%', ' ', '|', ' '] ++
    padLeft 5 (formatFixed f.bandwidthKbS) ++ ['K', 'B', '/', 's', ' ', '|', ' '] ++
    padLeft 4 (formatFixed f.compressionRatio) ++ ['x', ' ', '|', ' '] ++
    padLeft 2 (Nat.toDigits 10 f.fps) ++ ['f', 'p', 's', ']', ' ']

/-- The debugging overlay, at the right of the first row. -/
def paintOverlay (f : TerminalFrame) : List PaintCommand :=
  if f.overlayEnabled then
    let text := overlayText f
    let len := (encode text).length % 2 ^ 16
    [.moveTo (f.cols - len) 0, .setAttribute .reset, .setForeground .white,
      .setBackground (.rgb { r := 60, g := 60, b := 60 }), .setAttribute .bold, .write (columns text),
      .setAttribute .reset]
  else []

/-! ### Painting -/

/-- `paint`: the back buffer afterwards, the commands, and whether a row was painted. -/
def paint (f : TerminalFrame) : Except PaintStop (TerminalFrame × List PaintCommand × Bool) :=
  let cleared := if f.clearRequested then [PaintCommand.clear] else []
  let f := { f with clearRequested := false }
  if !f.dirty then .ok (f, cleared, false)
  else
    let f := { f with dirty := false }
    match paintRows f { out := cleared, activeStyle := none, cursorMoved := false } false
        (List.range f.rows) with
    | .error e => .error e
    | .ok (f, p, realUpdate) =>
      .ok (f, p.out ++ paintBanner f ++ paintOverlay f ++
        [.moveTo f.cursorX f.cursorY, if f.cursorVisible then .show else .hide], realUpdate)

/-! ### Why a paint stops -/

/-- A row that cannot be painted has a cell outside of the buffer or one that cannot be read, or never
    ends. -/
inductive Stops (f : TerminalFrame) (y : ℕ) : PaintStop → Prop
  | index {x : ℕ} (hx : x < f.cols) (hcell : f.cellCache[y * f.cols + x]? = none) : Stops f y .index
  | unreadable {cell : LocalCellData} (hcell : cell ∈ f.cellCache)
      (hread : readCell cell = .error .unreadable) : Stops f y .unreadable
  | endless : Stops f y .endless

/-- The painter does not look at the marks and flags. -/
theorem Stops.congr {f f' : TerminalFrame} {y : ℕ} {e : PaintStop} (h : Stops f y e)
    (hcols : f.cols = f'.cols) (hcells : f.cellCache = f'.cellCache) : Stops f' y e := by
  cases h with
  | index hx hcell => exact .index (hcols ▸ hx) (by rw [← hcells, ← hcols, hcell])
  | unreadable hcell hread => exact .unreadable (hcells ▸ hcell) hread
  | endless => exact .endless

theorem readCell_error {cell : LocalCellData} {e : PaintStop} (h : readCell cell = .error e) :
    e = .unreadable := by
  unfold readCell at h
  split at h
  · cases h
    rfl
  · split at h <;> cases h
    rfl

theorem paintCells_stops {f : TerminalFrame} {y : ℕ} {e : PaintStop} (turns : ℕ) :
    ∀ {x : ℕ} {p : Pen}, paintCells f y turns x p = .error e → Stops f y e := by
  induction turns with
  | zero =>
    intro x p h
    rw [paintCells] at h
    split at h <;> cases h
    exact .endless
  | succ turns ih =>
    intro x p h
    rw [paintCells] at h
    split at h
    · rename_i hx
      split at h
      · rename_i hcell
        cases h
        exact .index hx hcell
      · rename_i cell hcell
        split at h
        · rename_i hread
          cases h
          obtain rfl := readCell_error hread
          exact .unreadable (List.mem_of_getElem? hcell) hread
        · exact ih h
    · cases h

/-- The rows before may have lost their marks, which the loop over a row does not look at. -/
theorem paintRows_stops {e : PaintStop} (ys : List ℕ) : ∀ {f : TerminalFrame} {p : Pen} {b : Bool},
    paintRows f p b ys = .error e → ∃ y ∈ ys, (f.rowDirty.length ≤ y ∧ e = .index) ∨ Stops f y e := by
  induction ys with
  | nil => intro f p b h; cases h
  | cons y ys ih =>
    intro f p b h
    rw [paintRows] at h
    split at h
    · rename_i hrow
      cases h
      exact ⟨y, List.mem_cons_self .., .inl ⟨List.getElem?_eq_none_iff.mp hrow, rfl⟩⟩
    · obtain ⟨y', hy', hstop⟩ := ih h
      exact ⟨y', List.mem_cons_of_mem _ hy', hstop⟩
    · split at h
      · rename_i he
        cases h
        exact ⟨y, List.mem_cons_self .., .inr (paintCells_stops _ he)⟩
      · obtain ⟨y', hy', hstop⟩ := ih h
        rw [List.length_set] at hstop
        exact ⟨y', List.mem_cons_of_mem _ hy', hstop.imp_right fun hs => hs.congr rfl rfl⟩

/-- A paint takes back the marks of the rows, and nothing else. -/
theorem paintRows_frame (ys : List ℕ) : ∀ {f f' : TerminalFrame} {p p' : Pen} {b b' : Bool},
    paintRows f p b ys = .ok (f', p', b') →
    ∃ rowDirty, f' = { f with rowDirty } ∧ rowDirty.length = f.rowDirty.length := by
  induction ys with
  | nil =>
    intro f f' p p' b b' h
    cases h
    exact ⟨_, rfl, rfl⟩
  | cons y ys ih =>
    intro f f' p p' b b' h
    rw [paintRows] at h
    split at h
    · cases h
    · exact ih h
    · split at h
      · cases h
      · obtain ⟨rowDirty, hframe, hlen⟩ := ih h
        exact ⟨rowDirty, hframe, hlen.trans List.length_set⟩

theorem paint_stops {f : TerminalFrame} {e : PaintStop} (h : paint f = .error e) :
    ∃ y < f.rows, (f.rowDirty.length ≤ y ∧ e = .index) ∨ Stops f y e := by
  unfold paint at h
  dsimp only at h
  split at h
  · cases h
  · split at h
    · rename_i he
      cases h
      obtain ⟨y, hy, hstop⟩ := paintRows_stops _ he
      exact ⟨y, List.mem_range.mp hy, hstop.imp_right fun hs => hs.congr rfl rfl⟩
    · cases h

theorem paint_frame {f f' : TerminalFrame} {out : List PaintCommand} {b : Bool}
    (h : paint f = .ok (f', out, b)) : ∃ dirty rowDirty,
      f' = { f with clearRequested := false, dirty, rowDirty } ∧
        rowDirty.length = f.rowDirty.length := by
  unfold paint at h
  dsimp only at h
  split at h
  · cases h
    exact ⟨_, _, rfl, rfl⟩
  · split at h
    · cases h
    · rename_i hrows
      cases h
      obtain ⟨rowDirty, rfl, hlen⟩ := paintRows_frame _ hrows
      exact ⟨_, rowDirty, rfl, hlen⟩

end ClientTerminalRenderer

end Rumsh.Client
