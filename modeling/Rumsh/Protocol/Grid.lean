import Mathlib.Data.List.Basic
import Mathlib.Tactic.Ring
import Rumsh.Schemes.Overwrite
import Rumsh.Protocol.Basic

/-! The terminal grid of `src/protocol/grid.rs`: cells, `GridState`, and the delta codec between two
    grids.

    The server sends `diffFrom reference` and the client runs `patch` on the same reference. The cell
    index of the sender is computed in `u16` arithmetic and the receiver's in `usize`; both are kept
    as written. A slice index out of bounds is a panic, modelled as `none`; a `bail!` leaves the
    partly patched grid behind, so `patch` returns the grid next to its `Result`. -/

namespace Rumsh.Protocol
open Rumsh.Schemes

def STYLE_BOLD : UInt8 := 1
def STYLE_ITALIC : UInt8 := 2
def STYLE_UNDERLINE : UInt8 := 4
def STYLE_INVERSE : UInt8 := 8

structure RgbColorUpdate where
  r : UInt8
  g : UInt8
  b : UInt8
  deriving DecidableEq, Repr

/-- The text of one cell: at most 15 bytes of UTF-8, zero padded. -/
structure CompactGrapheme where
  bytes : Vector UInt8 15
  len : UInt8
  deriving DecidableEq, Repr

/-- `str::is_char_boundary`: the ends of the text, and every byte that does not continue a char. -/
def isCharBoundary (s : Bytes) (i : ℕ) : Bool :=
  i = 0 || match s[i]? with
    | none => i = s.length
    | some b => b < 0x80 || 0xC0 ≤ b

/-- The `while !s.is_char_boundary(len) { len -= 1 }` loop. -/
def floorCharBoundary (s : Bytes) : ℕ → ℕ
  | 0 => 0
  | n + 1 => if isCharBoundary s (n + 1) then n + 1 else floorCharBoundary s n

def CompactGrapheme.new (s : Bytes) : CompactGrapheme :=
  let len := if s.length > 15 then floorCharBoundary s 15 else s.length
  { bytes := Vector.ofFn fun i => if i.val < len then s.getD i.val 0 else 0
    len := UInt8.ofNat len }

structure LocalCellData where
  graphemes : CompactGrapheme
  fg : Option RgbColorUpdate
  bg : Option RgbColorUpdate
  styleFlags : UInt8
  deriving DecidableEq, Repr

/-- The blank cell every buffer of the program is filled with: one space, no colour, no style. -/
def blankCell : LocalCellData :=
  { graphemes := CompactGrapheme.new [0x20], fg := none, bg := none, styleFlags := 0 }

structure CellUpdate where
  x : ℕ
  cell : LocalCellData
  deriving DecidableEq, Repr

structure RowUpdate where
  y : ℕ
  cells : List CellUpdate
  isWrapped : Bool
  deriving DecidableEq, Repr

structure FrameUpdate where
  refSeq : ℕ
  cols : ℕ
  rows : ℕ
  cursorX : ℕ
  cursorY : ℕ
  cursorVisible : Bool
  rowUpdates : List RowUpdate
  isEchoEnabled : Bool
  deriving DecidableEq, Repr

/-- The cells of a diff. -/
def FrameUpdate.cells (diff : FrameUpdate) : List LocalCellData :=
  diff.rowUpdates.flatMap fun r => r.cells.map CellUpdate.cell

structure GridState where
  cols : ℕ
  rows : ℕ
  cursorX : ℕ
  cursorY : ℕ
  cursorVisible : Bool
  cells : List LocalCellData
  rowWrapped : List Bool
  deriving DecidableEq, Repr

namespace GridState

/-- The buffers have the sizes the dimensions promise. -/
structure WellFormed (g : GridState) : Prop where
  cells : g.cells.length = g.cols * g.rows
  rowWrapped : g.rowWrapped.length = g.rows

/-- An empty screen: every cell blank, no row wrapped, the cursor hidden at the origin. -/
def blank (cols rows : ℕ) : GridState :=
  { cols, rows, cursorX := 0, cursorY := 0, cursorVisible := false
    cells := List.replicate (cols * rows) blankCell, rowWrapped := List.replicate rows false }

theorem blank_wellFormed (cols rows : ℕ) : (blank cols rows).WellFormed :=
  ⟨by simp [blank], by simp [blank]⟩

/-! ### Diff -/

/-- The reference is used only when it has the new grid's dimensions. -/
def usableRef (g : GridState) : Option GridState → Option GridState
  | some r => if r.cols = g.cols ∧ r.rows = g.rows then some r else none
  | none => none

/-- `from_cell`: the reference's cell, or the default cell without a reference. -/
def fromCell (useRef : Option GridState) (idx : ℕ) : Option LocalCellData :=
  match useRef with
  | some r => r.cells[idx]?
  | none => some blankCell

/-- `wrapping_changed`: against the reference's flag, or against `false`. -/
def wrappingChanged (useRef : Option GridState) (y : ℕ) (wrapped : Bool) : Option Bool :=
  match useRef with
  | some r => r.rowWrapped[y]?.map (wrapped != ·)
  | none => some wrapped

/-- `(y * cols + x) as usize`: the product and the sum are `u16`. -/
def diffIndex (cols y x : ℕ) : ℕ := (y * cols + x) % 2 ^ 16

/-- One cell of the scan: its update, if it differs from the reference. -/
def diffCell (g : GridState) (useRef : Option GridState) (y x : ℕ) : Option (Option CellUpdate) := do
  let idx := diffIndex g.cols y x
  let toCell ← g.cells[idx]?
  let fromCell ← fromCell useRef idx
  return if toCell ≠ fromCell then some { x, cell := toCell } else none

/-- One row of the scan: its update, if a cell or the wrap flag changed. -/
def diffRow (g : GridState) (useRef : Option GridState) (y : ℕ) : Option (Option RowUpdate) := do
  let cells := (← (List.range g.cols).mapM (diffCell g useRef y)).reduceOption
  let wrapped ← g.rowWrapped[y]?
  let changed ← wrappingChanged useRef y wrapped
  return if !cells.isEmpty || changed then some { y, cells, isWrapped := wrapped } else none

/-- `GridState::diff_from`; `none` is an index panic. -/
def diffFrom (g : GridState) (refState : Option GridState) (refSeq : ℕ) (isEchoEnabled : Bool) :
    Option FrameUpdate := do
  let rowUpdates := (← (List.range g.rows).mapM (diffRow g (usableRef g refState))).reduceOption
  return { refSeq, cols := g.cols, rows := g.rows, cursorX := g.cursorX, cursorY := g.cursorY,
           cursorVisible := g.cursorVisible, rowUpdates, isEchoEnabled }

/-! ### Patch -/

/-- The inner loop of `patch`: the cell updates of row `y`. -/
def patchCells (g : GridState) (y : ℕ) : List CellUpdate → Option (GridState × Except Error Unit)
  | [] => some (g, .ok ())
  | u :: us =>
    if u.x ≥ g.cols then some (g, .error (.cellOutOfBounds u.x g.cols))
    else
      let idx := y * g.cols + u.x
      if idx < g.cells.length then patchCells { g with cells := g.cells.set idx u.cell } y us
      else none

/-- The outer loop of `patch`: the row updates, stopping at the first one out of bounds. -/
def patchRows (g : GridState) : List RowUpdate → Option (GridState × Except Error Unit)
  | [] => some (g, .ok ())
  | r :: rs =>
    if r.y ≥ g.rows then some (g, .error (.rowOutOfBounds r.y g.rows))
    else if r.y < g.rowWrapped.length then
      match patchCells { g with rowWrapped := g.rowWrapped.set r.y r.isWrapped } r.y r.cells with
      | some (g', .ok ()) => patchRows g' rs
      | stop => stop
    else none

/-- A diff of other dimensions is applied to a blank screen of those dimensions. -/
def resizedFor (g : GridState) (diff : FrameUpdate) : GridState :=
  if g.cols ≠ diff.cols ∨ g.rows ≠ diff.rows then
    { g with cols := diff.cols, rows := diff.rows
             cells := List.replicate (diff.cols * diff.rows) blankCell
             rowWrapped := List.replicate diff.rows false }
  else g

/-- `GridState::patch`; `none` is an index panic. -/
def patch (g : GridState) (diff : FrameUpdate) : Option (GridState × Except Error Unit) :=
  match patchRows (resizedFor g diff) diff.rowUpdates with
  | some (g', .ok ()) =>
    some ({ g' with cursorX := diff.cursorX, cursorY := diff.cursorY,
                    cursorVisible := diff.cursorVisible }, .ok ())
  | stop => stop

/-! ### What a diff contains

    Against a usable reference the scan compares with that grid, otherwise with the blank one; both
    are `baseOf`. Within the `u16` range the scan is the filter `rowDelta` of all rows. -/

/-- The grid a diff is relative to: the usable reference, or a blank screen. -/
def baseOf (g : GridState) (refState : Option GridState) : GridState :=
  (usableRef g refState).getD (blank g.cols g.rows)

def cellAt (g : GridState) (y x : ℕ) : LocalCellData := g.cells.getD (y * g.cols + x) blankCell

def wrappedAt (g : GridState) (y : ℕ) : Bool := g.rowWrapped.getD y false

def cellDelta (g base : GridState) (y x : ℕ) : Option CellUpdate :=
  if g.cellAt y x ≠ base.cellAt y x then some { x, cell := g.cellAt y x } else none

def rowDelta (g base : GridState) (y : ℕ) : Option RowUpdate :=
  let cells := (List.range g.cols).filterMap (cellDelta g base y)
  if !cells.isEmpty || (g.wrappedAt y != base.wrappedAt y) then
    some { y, cells, isWrapped := g.wrappedAt y }
  else none

/-- The row-major index of a cell inside the grid is inside the cell buffer. -/
theorem index_lt {cols rows y x : ℕ} (hy : y < rows) (hx : x < cols) :
    y * cols + x < cols * rows := by
  calc y * cols + x < y * cols + cols := by omega
    _ = (y + 1) * cols := by ring
    _ ≤ rows * cols := Nat.mul_le_mul_right _ hy
    _ = cols * rows := Nat.mul_comm ..

theorem index_div {cols x : ℕ} (y : ℕ) (hx : x < cols) : (y * cols + x) / cols = y := by
  rw [Nat.add_comm, Nat.add_mul_div_right _ _ (by omega), Nat.div_eq_of_lt hx, Nat.zero_add]

theorem index_mod {cols x : ℕ} (y : ℕ) (hx : x < cols) : (y * cols + x) % cols = x := by
  rw [Nat.add_comm, Nat.add_mul_mod_self_right, Nat.mod_eq_of_lt hx]

/-- The index determines the cell. -/
theorem coords_unique {cols x y x' y' : ℕ} (hx : x < cols) (hx' : x' < cols)
    (h : y * cols + x = y' * cols + x') : x = x' ∧ y = y' := by
  constructor
  · rw [← index_mod y hx, h, index_mod y' hx']
  · rw [← index_div y hx, h, index_div y' hx']

theorem WellFormed.cells_getElem? {g : GridState} (h : g.WellFormed) {y x : ℕ} (hy : y < g.rows)
    (hx : x < g.cols) : g.cells[y * g.cols + x]? = some (g.cellAt y x) := by
  have hlt : y * g.cols + x < g.cells.length := h.cells ▸ index_lt hy hx
  rw [cellAt, List.getD_eq_getElem?_getD, List.getElem?_eq_getElem hlt, Option.getD_some]

theorem WellFormed.rowWrapped_getElem? {g : GridState} (h : g.WellFormed) {y : ℕ}
    (hy : y < g.rows) : g.rowWrapped[y]? = some (g.wrappedAt y) := by
  have hlt : y < g.rowWrapped.length := h.rowWrapped ▸ hy
  rw [wrappedAt, List.getD_eq_getElem?_getD, List.getElem?_eq_getElem hlt, Option.getD_some]

theorem usableRef_eq_some {g r : GridState} {refState : Option GridState}
    (h : usableRef g refState = some r) :
    refState = some r ∧ r.cols = g.cols ∧ r.rows = g.rows := by
  cases refState with
  | none => simp [usableRef] at h
  | some r' =>
    simp only [usableRef] at h
    split at h
    · cases h; exact ⟨rfl, ‹_›⟩
    · cases h

theorem baseOf_wellFormed (g : GridState) {refState : Option GridState}
    (h : ∀ r, refState = some r → r.WellFormed) :
    (baseOf g refState).WellFormed ∧ (baseOf g refState).cols = g.cols ∧
      (baseOf g refState).rows = g.rows := by
  cases hu : usableRef g refState with
  | none => simp only [baseOf, hu, Option.getD_none]; exact ⟨blank_wellFormed .., rfl, rfl⟩
  | some r =>
    obtain ⟨hr, hc, hrows⟩ := usableRef_eq_some hu
    simp only [baseOf, hu, Option.getD_some]
    exact ⟨h r hr, hc, hrows⟩

/-- Inside the `u16` range a cell of the scan is the delta against the base. -/
theorem diffCell_eq {g : GridState} {refState : Option GridState} (hg : g.WellFormed)
    (href : ∀ r, refState = some r → r.WellFormed) (hsize : g.cols * g.rows ≤ 2 ^ 16) {y x : ℕ}
    (hy : y < g.rows) (hx : x < g.cols) :
    diffCell g (usableRef g refState) y x = some (cellDelta g (baseOf g refState) y x) := by
  have hidx : diffIndex g.cols y x = y * g.cols + x :=
    Nat.mod_eq_of_lt ((index_lt hy hx).trans_le hsize)
  obtain ⟨hb, hbc, hbr⟩ := baseOf_wellFormed g href
  have hfrom : fromCell (usableRef g refState) (y * g.cols + x) =
      some ((baseOf g refState).cellAt y x) := by
    rw [← hb.cells_getElem? (hbr ▸ hy) (hbc ▸ hx), hbc]
    cases hu : usableRef g refState with
    | some r => simp [fromCell, baseOf, hu]
    | none => simp [fromCell, baseOf, hu, blank, index_lt hy hx]
  simp only [diffCell, hidx, hg.cells_getElem? hy hx, hfrom, Option.bind_eq_bind, Option.bind_some,
    cellDelta]
  rfl

theorem reduceOption_map {α β : Type} (f : α → Option β) (l : List α) :
    (l.map f).reduceOption = l.filterMap f := by
  show (l.map f).filterMap id = _
  rw [List.filterMap_map, Function.id_comp]

theorem diffRow_eq {g : GridState} {refState : Option GridState} (hg : g.WellFormed)
    (href : ∀ r, refState = some r → r.WellFormed) (hsize : g.cols * g.rows ≤ 2 ^ 16) {y : ℕ}
    (hy : y < g.rows) :
    diffRow g (usableRef g refState) y = some (rowDelta g (baseOf g refState) y) := by
  have hcells : (List.range g.cols).mapM (diffCell g (usableRef g refState) y) =
      some ((List.range g.cols).map (cellDelta g (baseOf g refState) y)) :=
    mapM_eq_some_map _ fun x hx => diffCell_eq hg href hsize hy (List.mem_range.mp hx)
  obtain ⟨hb, -, hbr⟩ := baseOf_wellFormed g href
  have hwrap : wrappingChanged (usableRef g refState) y (g.wrappedAt y) =
      some (g.wrappedAt y != (baseOf g refState).wrappedAt y) := by
    have hbase := hb.rowWrapped_getElem? (hbr ▸ hy)
    cases hu : usableRef g refState with
    | some r =>
      simp only [wrappingChanged, baseOf, hu, Option.getD_some] at hbase ⊢
      rw [hbase]; rfl
    | none =>
      have : (baseOf g refState).wrappedAt y = false := by
        simp [baseOf, hu, blank, wrappedAt, List.getD_eq_getElem?_getD, hy]
      simp [wrappingChanged, this]
  simp only [diffRow, hcells, hg.rowWrapped_getElem? hy, hwrap, Option.bind_eq_bind,
    Option.bind_some, rowDelta, reduceOption_map]
  rfl

/-- DIFF: below 65536 cells `diffFrom` never panics and is the list of row deltas. -/
theorem diffFrom_eq {g : GridState} {refState : Option GridState} (hg : g.WellFormed)
    (href : ∀ r, refState = some r → r.WellFormed) (hsize : g.cols * g.rows ≤ 2 ^ 16)
    (refSeq : ℕ) (echo : Bool) :
    diffFrom g refState refSeq echo = some
      { refSeq, cols := g.cols, rows := g.rows, cursorX := g.cursorX, cursorY := g.cursorY,
        cursorVisible := g.cursorVisible, isEchoEnabled := echo
        rowUpdates := (List.range g.rows).filterMap (rowDelta g (baseOf g refState)) } := by
  have hrows : (List.range g.rows).mapM (diffRow g (usableRef g refState)) =
      some ((List.range g.rows).map (rowDelta g (baseOf g refState))) :=
    mapM_eq_some_map _ fun y hy => diffRow_eq hg href hsize (List.mem_range.mp hy)
  simp only [diffFrom, hrows, Option.bind_eq_bind, Option.bind_some, reduceOption_map]
  rfl

/-! ### What a patch does -/

/-- The cell writes of a list of row updates, as row-major indices. -/
def cellWrites (cols : ℕ) (rs : List RowUpdate) : List (ℕ × LocalCellData) :=
  rs.flatMap fun r => r.cells.map fun u => (r.y * cols + u.x, u.cell)

def wrapWrites (rs : List RowUpdate) : List (ℕ × Bool) := rs.map fun r => (r.y, r.isWrapped)

/-- Every coordinate of the updates lies inside a `cols × rows` grid. -/
def InRange (cols rows : ℕ) (rs : List RowUpdate) : Prop :=
  ∀ r ∈ rs, r.y < rows ∧ ∀ u ∈ r.cells, u.x < cols

theorem resizedFor_size (g : GridState) (diff : FrameUpdate) :
    (resizedFor g diff).cols = diff.cols ∧ (resizedFor g diff).rows = diff.rows := by
  unfold resizedFor
  split
  · exact ⟨rfl, rfl⟩
  · rename_i h
    simpa only [ne_eq, not_or, not_not] using h

theorem resizedFor_wellFormed {g : GridState} (hg : g.WellFormed) (diff : FrameUpdate) :
    (resizedFor g diff).WellFormed := by
  unfold resizedFor
  split
  · exact ⟨by simp, by simp⟩
  · exact hg

/-- One row of updates, whatever their columns: the loop stays inside the buffer, keeps its size, and stops
    at a column that lies outside. -/
theorem patchCells_spec {y : ℕ} : ∀ (us : List CellUpdate) {g : GridState}, g.WellFormed → y < g.rows →
    ∃ g' r, patchCells g y us = some (g', r) ∧ g'.WellFormed ∧ g'.cols = g.cols ∧ g'.rows = g.rows ∧
      (r = .ok () ∧ (∀ u ∈ us, u.x < g.cols) ∨
        ∃ u ∈ us, g.cols ≤ u.x ∧ r = .error (.cellOutOfBounds u.x g.cols))
  | [], g, hg, _ => ⟨g, _, rfl, hg, rfl, rfl, .inl ⟨rfl, nofun⟩⟩
  | u :: us, g, hg, hy => by
      rw [patchCells, List.forall_mem_cons]
      by_cases hx : u.x < g.cols
      · have hlt : y * g.cols + u.x < g.cells.length := hg.cells ▸ index_lt hy hx
        have hset : ({ g with cells := g.cells.set (y * g.cols + u.x) u.cell } : GridState).WellFormed :=
          ⟨by simpa using hg.cells, hg.rowWrapped⟩
        obtain ⟨g', r, h, hwf, hc, hr, hstop⟩ := patchCells_spec us hset hy
        rw [if_neg (Nat.not_le.mpr hx), if_pos hlt]
        refine ⟨g', r, h, hwf, hc, hr, ?_⟩
        rcases hstop with ⟨hok, hin⟩ | ⟨v, hv, hout, herr⟩
        · exact .inl ⟨hok, hx, hin⟩
        · exact .inr ⟨v, List.mem_cons_of_mem _ hv, hout, herr⟩
      · have hout := Nat.not_lt.mp hx
        rw [if_pos hout]
        exact ⟨g, _, rfl, hg, rfl, rfl, .inr ⟨u, List.mem_cons_self .., hout, rfl⟩⟩

/-- The error names a coordinate of the updates that lies outside. -/
def Names (cols rows : ℕ) (rs : List RowUpdate) (e : Error) : Prop :=
  ∃ row ∈ rs, (rows ≤ row.y ∧ e = .rowOutOfBounds row.y rows) ∨
    ∃ u ∈ row.cells, cols ≤ u.x ∧ e = .cellOutOfBounds u.x cols

theorem Names.not_inRange {cols rows : ℕ} {rs : List RowUpdate} {e : Error} (h : Names cols rows rs e) :
    ¬ InRange cols rows rs := by
  intro hin
  obtain ⟨row, hrow, ⟨hout, -⟩ | ⟨u, hu, hout, -⟩⟩ := h
  · exact absurd (hin row hrow).1 (Nat.not_lt.mpr hout)
  · exact absurd ((hin row hrow).2 u hu) (Nat.not_lt.mpr hout)

/-- Any rows of updates. -/
theorem patchRows_spec : ∀ (rs : List RowUpdate) {g : GridState}, g.WellFormed →
    ∃ g' r, patchRows g rs = some (g', r) ∧ g'.WellFormed ∧ g'.cols = g.cols ∧ g'.rows = g.rows ∧
      (r = .ok () ∧ InRange g.cols g.rows rs ∨ ∃ e, r = .error e ∧ Names g.cols g.rows rs e)
  | [], g, hg => ⟨g, _, rfl, hg, rfl, rfl, .inl ⟨rfl, nofun⟩⟩
  | row :: rs, g, hg => by
      rw [patchRows]
      by_cases hy : row.y < g.rows
      · have hlt : row.y < g.rowWrapped.length := hg.rowWrapped ▸ hy
        have hset : ({ g with rowWrapped := g.rowWrapped.set row.y row.isWrapped } :
            GridState).WellFormed := ⟨hg.cells, by simpa using hg.rowWrapped⟩
        obtain ⟨g₁, r₁, h₁, hwf₁, hc₁, hr₁, hstop₁⟩ := patchCells_spec row.cells hset hy
        rw [if_neg (Nat.not_le.mpr hy), if_pos hlt, h₁]
        rcases hstop₁ with ⟨rfl, hin₁⟩ | ⟨u, hu, hout, rfl⟩
        · -- the row is done, and the loop goes on
          obtain ⟨g', r, h, hwf, hc, hr, hstop⟩ := patchRows_spec rs hwf₁
          refine ⟨g', r, h, hwf, hc.trans hc₁, hr.trans hr₁, ?_⟩
          rw [hc₁, hr₁] at hstop
          rcases hstop with ⟨hok, hin⟩ | ⟨e, herr, row', hrow', hname⟩
          · exact .inl ⟨hok, List.forall_mem_cons.mpr ⟨⟨hy, hin₁⟩, hin⟩⟩
          · exact .inr ⟨e, herr, row', List.mem_cons_of_mem _ hrow', hname⟩
        · have hname : Names g.cols g.rows (row :: rs) (.cellOutOfBounds u.x g.cols) :=
            ⟨row, List.mem_cons_self .., .inr ⟨u, hu, hout, rfl⟩⟩
          exact ⟨g₁, _, rfl, hwf₁, hc₁, hr₁, .inr ⟨_, rfl, hname⟩⟩
      · have hout := Nat.not_lt.mp hy
        rw [if_pos hout]
        exact ⟨g, _, rfl, hg, rfl, rfl, .inr ⟨_, rfl, row, List.mem_cons_self .., .inl ⟨hout, rfl⟩⟩⟩

/-- SPEC: on any diff `patch` returns a well-formed grid of the diff's size, and an error only for a
    coordinate that lies outside. -/
theorem patch_spec {g : GridState} (hg : g.WellFormed) (diff : FrameUpdate) :
    ∃ g' r, patch g diff = some (g', r) ∧ g'.WellFormed ∧ g'.cols = diff.cols ∧ g'.rows = diff.rows ∧
      (r = .ok () ∧ InRange diff.cols diff.rows diff.rowUpdates ∨
        ∃ e, r = .error e ∧ Names diff.cols diff.rows diff.rowUpdates e) := by
  obtain ⟨hcols, hrows⟩ := resizedFor_size g diff
  obtain ⟨g', r, h, hwf, hc, hr, hstop⟩ :=
    patchRows_spec diff.rowUpdates (resizedFor_wellFormed hg diff)
  rw [hcols] at hc
  rw [hrows] at hr
  rw [hcols, hrows] at hstop
  rw [patch, h]
  rcases hstop with ⟨rfl, hin⟩ | ⟨e, rfl, hname⟩
  · exact ⟨_, _, rfl, ⟨hwf.cells, hwf.rowWrapped⟩, hc, hr, .inl ⟨rfl, hin⟩⟩
  · exact ⟨g', _, rfl, hwf, hc, hr, .inr ⟨e, rfl, hname⟩⟩

/-- A grid that was patched is well formed if its reference was. -/
theorem patch_wellFormed {g g' : GridState} {diff : FrameUpdate} {r : Except Error Unit}
    (hg : g.WellFormed) (h : patch g diff = some (g', r)) : g'.WellFormed := by
  obtain ⟨g₁, r₁, h₁, hwf, -⟩ := patch_spec hg diff
  obtain ⟨rfl, -⟩ := Prod.mk.inj (Option.some.inj (h₁.symm.trans h))
  exact hwf

/-- A row that went through: its writes are in the buffer. -/
theorem patchCells_ok {y : ℕ} : ∀ (us : List CellUpdate) {g g' : GridState},
    patchCells g y us = some (g', .ok ()) →
    g' = { g with cells := overwrite g.cells (us.map fun u => (y * g.cols + u.x, u.cell)) }
  | [], g, g', h => by
      cases h
      rfl
  | u :: us, g, g', h => by
      rw [patchCells] at h
      split at h
      · cases h
      · dsimp only at h
        split at h
        · exact patchCells_ok us h
        · cases h

theorem patchRows_ok : ∀ (rs : List RowUpdate) {g g' : GridState}, patchRows g rs = some (g', .ok ()) →
    g' = { g with
      cells := overwrite g.cells (cellWrites g.cols rs),
      rowWrapped := overwrite g.rowWrapped (wrapWrites rs) }
  | [], g, g', h => by
      cases h
      rfl
  | row :: rs, g, g', h => by
      rw [patchRows] at h
      split at h
      · cases h
      · split at h
        · split at h
          · rename_i g₁ hrow
            obtain rfl := patchCells_ok row.cells hrow
            rw [patchRows_ok rs h]
            simp [cellWrites, wrapWrites, overwrite_append]
          · rename_i hstop
            exact absurd h (hstop g')
        · cases h

/-- A diff that went through, on any grid. -/
theorem patch_ok {g g' : GridState} {diff : FrameUpdate} (h : patch g diff = some (g', .ok ())) :
    g' = { resizedFor g diff with
      cells := overwrite (resizedFor g diff).cells (cellWrites diff.cols diff.rowUpdates),
      rowWrapped := overwrite (resizedFor g diff).rowWrapped (wrapWrites diff.rowUpdates),
      cursorX := diff.cursorX, cursorY := diff.cursorY, cursorVisible := diff.cursorVisible } := by
  unfold patch at h
  split at h
  · rename_i g₁ hrows
    cases h
    rw [patchRows_ok _ hrows, ← (resizedFor_size g diff).1]
  · rename_i hstop
    exact absurd h (hstop g')

theorem patch_eq {g : GridState} {diff : FrameUpdate} (hg : g.WellFormed)
    (hin : InRange diff.cols diff.rows diff.rowUpdates) :
    patch g diff = some ({ resizedFor g diff with
      cells := overwrite (resizedFor g diff).cells (cellWrites diff.cols diff.rowUpdates),
      rowWrapped := overwrite (resizedFor g diff).rowWrapped (wrapWrites diff.rowUpdates),
      cursorX := diff.cursorX, cursorY := diff.cursorY,
      cursorVisible := diff.cursorVisible }, .ok ()) := by
  obtain ⟨g', r, h, -, -, -, ⟨rfl, -⟩ | ⟨e, -, hname⟩⟩ := patch_spec hg diff
  · rw [h, patch_ok h]
  · exact absurd hin hname.not_inRange

/-- A patched grid has the cells of its reference, of the diff, and blank ones. -/
theorem patch_cells {P : LocalCellData → Prop} {g g' : GridState} {diff : FrameUpdate}
    (hblank : P blankCell) (hg : ∀ c ∈ g.cells, P c) (hdiff : ∀ c ∈ diff.cells, P c)
    (h : patch g diff = some (g', .ok ())) : ∀ c ∈ g'.cells, P c := by
  intro c hc
  rw [patch_ok h] at hc
  rcases mem_overwrite hc with hc | ⟨w, hw, rfl⟩
  · unfold resizedFor at hc
    split at hc
    · rw [List.eq_of_mem_replicate hc]
      exact hblank
    · exact hg c hc
  · obtain ⟨row, hrow, hw⟩ := List.mem_flatMap.mp hw
    obtain ⟨u, hu, rfl⟩ := List.mem_map.mp hw
    exact hdiff u.cell (List.mem_flatMap.mpr ⟨row, hrow, List.mem_map_of_mem hu⟩)

/-! ### Round trip -/

theorem mem_rowDeltas {g base : GridState} {r : RowUpdate}
    (h : r ∈ (List.range g.rows).filterMap (rowDelta g base)) :
    r.y < g.rows ∧ r.isWrapped = g.wrappedAt r.y ∧
      r.cells = (List.range g.cols).filterMap (cellDelta g base r.y) := by
  obtain ⟨y, hy, hr⟩ := List.mem_filterMap.mp h
  simp only [rowDelta] at hr
  split at hr
  · cases hr; exact ⟨List.mem_range.mp hy, rfl, rfl⟩
  · cases hr

theorem mem_cellDeltas {g base : GridState} {y : ℕ} {u : CellUpdate}
    (h : u ∈ (List.range g.cols).filterMap (cellDelta g base y)) :
    u.x < g.cols ∧ u.cell = g.cellAt y u.x ∧ g.cellAt y u.x ≠ base.cellAt y u.x := by
  obtain ⟨x, hx, hu⟩ := List.mem_filterMap.mp h
  simp only [cellDelta] at hu
  split at hu
  · cases hu; exact ⟨List.mem_range.mp hx, rfl, ‹_›⟩
  · cases hu

theorem rowDeltas_inRange (g base : GridState) :
    InRange g.cols g.rows ((List.range g.rows).filterMap (rowDelta g base)) := by
  intro r hr
  obtain ⟨hy, -, hcells⟩ := mem_rowDeltas hr
  exact ⟨hy, fun u hu => (mem_cellDeltas (hcells ▸ hu)).1⟩

/-- A row no update mentions agrees with the base in its wrap flag and in every cell. -/
theorem rowDelta_none {g base : GridState} {y : ℕ} (hy : y < g.rows)
    (h : ∀ r ∈ (List.range g.rows).filterMap (rowDelta g base), r.y ≠ y) :
    g.wrappedAt y = base.wrappedAt y ∧ (List.range g.cols).filterMap (cellDelta g base y) = [] := by
  have hnone : rowDelta g base y = none := by
    cases hd : rowDelta g base y with
    | none => rfl
    | some r =>
      have hry : r.y = y := by
        simp only [rowDelta] at hd
        split at hd <;> cases hd; rfl
      exact absurd hry (h r (List.mem_filterMap.mpr ⟨y, List.mem_range.mpr hy, hd⟩))
  simp only [rowDelta] at hnone
  split at hnone
  · cases hnone
  · rename_i hc
    simp only [Bool.or_eq_true, Bool.not_eq_true', bne_iff_ne, ne_eq, not_or, not_not,
      Bool.not_eq_false, List.isEmpty_iff] at hc
    exact ⟨hc.2, hc.1⟩

theorem cellDelta_none {g base : GridState} {y x : ℕ} (hx : x < g.cols)
    (h : ∀ u ∈ (List.range g.cols).filterMap (cellDelta g base y), u.x ≠ x) :
    g.cellAt y x = base.cellAt y x := by
  by_contra hne
  exact h { x, cell := g.cellAt y x }
    (List.mem_filterMap.mpr ⟨x, List.mem_range.mpr hx, by simp [cellDelta, hne]⟩) rfl

/-- Every index of the cell buffer is the row-major index of one cell. -/
theorem exists_coords {g : GridState} {i : ℕ} (h : i < g.cols * g.rows) :
    ∃ y x, y < g.rows ∧ x < g.cols ∧ i = y * g.cols + x := by
  have hc : 0 < g.cols := Nat.pos_of_ne_zero fun h0 => by simp [h0] at h
  refine ⟨i / g.cols, i % g.cols, Nat.div_lt_of_lt_mul h, Nat.mod_lt _ hc, ?_⟩
  rw [Nat.mul_comm, Nat.div_add_mod]

/-- The row deltas turn the base's cells into the new grid's. -/
theorem overwrite_cellWrites {g base : GridState} (hg : g.WellFormed) (hb : base.WellFormed)
    (hc : base.cols = g.cols) (hr : base.rows = g.rows) :
    overwrite base.cells (cellWrites g.cols ((List.range g.rows).filterMap (rowDelta g base))) =
      g.cells := by
  refine overwrite_eq_target (by rw [hg.cells, hb.cells, hc, hr]) ?_ ?_
  · intro w hw
    obtain ⟨r, hr', hw'⟩ := List.mem_flatMap.mp hw
    obtain ⟨u, hu, rfl⟩ := List.mem_map.mp hw'
    obtain ⟨hy, -, hcells⟩ := mem_rowDeltas hr'
    obtain ⟨hx, hcell, -⟩ := mem_cellDeltas (hcells ▸ hu)
    rw [hg.cells_getElem? hy hx, hcell]
  · intro i hi
    by_cases hlt : i < g.cols * g.rows
    · obtain ⟨y, x, hy, hx, rfl⟩ := exists_coords hlt
      have hsame : g.cellAt y x = base.cellAt y x := by
        refine cellDelta_none hx fun u hu heq => ?_
        subst heq
        -- an update of this row would write exactly this index
        by_cases hrow : ∃ r ∈ (List.range g.rows).filterMap (rowDelta g base), r.y = y
        · obtain ⟨r, hr', rfl⟩ := hrow
          obtain ⟨-, -, hcells⟩ := mem_rowDeltas hr'
          exact hi (r.y * g.cols + u.x, u.cell) (List.mem_flatMap.mpr
            ⟨r, hr', List.mem_map.mpr ⟨u, hcells ▸ hu, rfl⟩⟩) rfl
        · have := (rowDelta_none hy fun r hr' heq => hrow ⟨r, hr', heq⟩).2
          rw [this] at hu; simp at hu
      have hbase := hb.cells_getElem? (hr ▸ hy) (hc ▸ hx)
      rw [hc] at hbase
      rw [hg.cells_getElem? hy hx, hbase, hsame]
    · rw [List.getElem?_eq_none (by rw [hb.cells, hc, hr]; omega),
        List.getElem?_eq_none (by rw [hg.cells]; omega)]

theorem overwrite_wrapWrites {g base : GridState} (hg : g.WellFormed) (hb : base.WellFormed)
    (hr : base.rows = g.rows) :
    overwrite base.rowWrapped (wrapWrites ((List.range g.rows).filterMap (rowDelta g base))) =
      g.rowWrapped := by
  refine overwrite_eq_target (by rw [hg.rowWrapped, hb.rowWrapped, hr]) ?_ ?_
  · intro w hw
    obtain ⟨r, hr', rfl⟩ := List.mem_map.mp hw
    obtain ⟨hy, hwrap, -⟩ := mem_rowDeltas hr'
    rw [hg.rowWrapped_getElem? hy, hwrap]
  · intro y hy
    by_cases hlt : y < g.rows
    · have hnone := rowDelta_none hlt fun r hr' heq =>
        hy (r.y, r.isWrapped) (List.mem_map.mpr ⟨r, hr', rfl⟩) heq
      rw [hg.rowWrapped_getElem? hlt, hb.rowWrapped_getElem? (hr ▸ hlt), hnone.1]
    · rw [List.getElem?_eq_none (by rw [hb.rowWrapped, hr]; omega),
        List.getElem?_eq_none (by rw [hg.rowWrapped]; omega)]

/-- What `patch` starts from has the buffers of the grid the diff is relative to. -/
theorem resizedFor_base {g old : GridState} {refState : Option GridState} (diff : FrameUpdate)
    (href : refState = some old ∨ refState = none ∧ old = blank g.cols g.rows)
    (hc : diff.cols = g.cols) (hr : diff.rows = g.rows) :
    (resizedFor old diff).cells = (baseOf g refState).cells ∧
      (resizedFor old diff).rowWrapped = (baseOf g refState).rowWrapped ∧
      (resizedFor old diff).cols = g.cols ∧ (resizedFor old diff).rows = g.rows := by
  rcases href with rfl | ⟨rfl, rfl⟩
  · by_cases hdim : old.cols = g.cols ∧ old.rows = g.rows
    · simp [resizedFor, baseOf, usableRef, hc, hr, hdim.1, hdim.2]
    · have hdim' : old.cols ≠ g.cols ∨ old.rows ≠ g.rows := by
        by_contra h; push Not at h; exact hdim h
      simp [resizedFor, baseOf, usableRef, hc, hr, hdim, hdim', blank]
  · simp [resizedFor, baseOf, usableRef, hc, hr, blank]

/-- ROUND TRIP: patching the reference (or, without one, the blank grid of the new dimensions) with
    the diff gives exactly the new grid. -/
theorem patch_diffFrom {g old : GridState} {refState : Option GridState} (hg : g.WellFormed)
    (hold : old.WellFormed) (hsize : g.cols * g.rows ≤ 2 ^ 16)
    (href : refState = some old ∨ refState = none ∧ old = blank g.cols g.rows)
    (refSeq : ℕ) (echo : Bool) {diff : FrameUpdate}
    (hdiff : diffFrom g refState refSeq echo = some diff) : patch old diff = some (g, .ok ()) := by
  have hwf : ∀ r, refState = some r → r.WellFormed := by
    rintro r hr
    rcases href with h | ⟨h, -⟩ <;> rw [h] at hr <;> cases hr; exact hold
  rw [diffFrom_eq hg hwf hsize] at hdiff
  obtain ⟨hb, hbc, hbr⟩ := baseOf_wellFormed g hwf
  have hd := Option.some.inj hdiff
  obtain ⟨hcells, hwrapped, hcols, hrows⟩ :=
    resizedFor_base diff href (by rw [← hd]) (by rw [← hd])
  rw [patch_eq hold (by rw [← hd]; exact rowDeltas_inRange g _)]
  rw [← hd] at hcells hwrapped hcols hrows ⊢
  simp only [hcells, hwrapped, hcols, hrows, overwrite_cellWrites hg hb hbc hbr,
    overwrite_wrapWrites hg hb hbr]

end GridState

end Rumsh.Protocol
