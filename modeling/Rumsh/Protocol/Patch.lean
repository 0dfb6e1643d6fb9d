import Rumsh.Protocol.Grid

/-! `patch` on any diff.

    A diff comes from the wire: its size is any, and its rows and cells are in any order, repeated or out
    of range. What a cell is told last is found by its coordinates, without the row-major index of the
    buffer. -/

namespace Rumsh.Protocol
open Rumsh.Schemes

namespace FrameUpdate

/-- The updates of cells, in the order `patch` comes to them, each with its row and its column. -/
def cellUpdates (diff : FrameUpdate) : List ((ℕ × ℕ) × LocalCellData) :=
  diff.rowUpdates.flatMap fun r => r.cells.map fun u => ((r.y, u.x), u.cell)

/-- The last update of a cell, if it has one. -/
def lastCell (diff : FrameUpdate) (y x : ℕ) : Option LocalCellData :=
  diff.cellUpdates.reverse.lookup (y, x)

/-- The last wrap flag of a row. -/
def lastWrapped (diff : FrameUpdate) (y : ℕ) : Option Bool :=
  (diff.rowUpdates.map fun r => (r.y, r.isWrapped)).reverse.lookup y

end FrameUpdate

namespace GridState
variable {g : GridState} {diff : FrameUpdate}

/-- The cell before the diff is applied: a blank one if the size is another. -/
def cellBefore (g : GridState) (diff : FrameUpdate) (y x : ℕ) : LocalCellData :=
  if g.cols = diff.cols ∧ g.rows = diff.rows then g.cellAt y x else blankCell

def wrappedBefore (g : GridState) (diff : FrameUpdate) (y : ℕ) : Bool :=
  if g.cols = diff.cols ∧ g.rows = diff.rows then g.wrappedAt y else false

/-! ### Before the loops -/

theorem resizedFor_same (h : g.cols = diff.cols ∧ g.rows = diff.rows) : resizedFor g diff = g := by
  rw [resizedFor, if_neg (by simp [h.1, h.2])]

theorem resizedFor_other (h : ¬ (g.cols = diff.cols ∧ g.rows = diff.rows)) :
    (resizedFor g diff).cells = List.replicate (diff.cols * diff.rows) blankCell ∧
      (resizedFor g diff).rowWrapped = List.replicate diff.rows false := by
  rw [resizedFor, if_pos (by rwa [← not_and_or])]
  exact ⟨rfl, rfl⟩

theorem resizedFor_cells_getElem? (hg : g.WellFormed) {y x : ℕ} (hy : y < diff.rows) (hx : x < diff.cols) :
    (resizedFor g diff).cells[y * diff.cols + x]? = some (g.cellBefore diff y x) := by
  unfold cellBefore
  by_cases hsize : g.cols = diff.cols ∧ g.rows = diff.rows
  · rw [resizedFor_same hsize, if_pos hsize, ← hsize.1]
    exact hg.cells_getElem? (hsize.2 ▸ hy) (hsize.1 ▸ hx)
  · rw [(resizedFor_other hsize).1, if_neg hsize]
    exact List.getElem?_replicate_of_lt (index_lt hy hx)

theorem resizedFor_rowWrapped_getElem? (hg : g.WellFormed) {y : ℕ} (hy : y < diff.rows) :
    (resizedFor g diff).rowWrapped[y]? = some (g.wrappedBefore diff y) := by
  unfold wrappedBefore
  by_cases hsize : g.cols = diff.cols ∧ g.rows = diff.rows
  · rw [resizedFor_same hsize, if_pos hsize]
    exact hg.rowWrapped_getElem? (hsize.2 ▸ hy)
  · rw [(resizedFor_other hsize).2, if_neg hsize]
    exact List.getElem?_replicate_of_lt hy

/-! ### The last writes -/

theorem cellWrites_eq_map (cols : ℕ) (diff : FrameUpdate) :
    cellWrites cols diff.rowUpdates = diff.cellUpdates.map fun u => (u.1.1 * cols + u.1.2, u.2) := by
  rw [cellWrites, FrameUpdate.cellUpdates, List.map_flatMap]
  refine List.flatMap_congr fun r _ => ?_
  rw [List.map_map]
  rfl

/-- Inside the grid the index tells two cells apart, so the last write to an index is the last update of
    its cell. -/
theorem lastWrite_cellWrites (hin : InRange diff.cols diff.rows diff.rowUpdates) {y x : ℕ}
    (hx : x < diff.cols) :
    lastWrite (cellWrites diff.cols diff.rowUpdates) (y * diff.cols + x) = diff.lastCell y x := by
  rw [cellWrites_eq_map]
  refine lastWrite_map_key (f := fun p => p.1 * diff.cols + p.2) (k := (y, x)) _ fun u hu heq => ?_
  obtain ⟨r, hr, hu⟩ := List.mem_flatMap.mp hu
  obtain ⟨v, hv, rfl⟩ := List.mem_map.mp hu
  obtain ⟨hcol, hrow⟩ := coords_unique ((hin r hr).2 v hv) hx heq
  exact Prod.ext hrow hcol

theorem lastWrite_wrapWrites (diff : FrameUpdate) (y : ℕ) :
    lastWrite (wrapWrites diff.rowUpdates) y = diff.lastWrapped y := by
  have h := lastWrite_map_key (f := id) (k := y) (wrapWrites diff.rowUpdates) fun _ _ => id
  simp only [id, Prod.mk.eta, List.map_id'] at h
  exact h

/-! ### Any diff -/

/-- ANY DIFF: `patch` returns, with a well-formed grid of the diff's size, and without an error exactly
    if every coordinate is in range; then each cell and each wrap flag holds its last update, or what
    it held before. -/
theorem patch_any_diff (hg : g.WellFormed) (diff : FrameUpdate) :
    ∃ g' r, g.patch diff = some (g', r) ∧ g'.WellFormed ∧ g'.cols = diff.cols ∧ g'.rows = diff.rows ∧
      (r = .ok () ↔ ∀ row ∈ diff.rowUpdates, row.y < diff.rows ∧ ∀ u ∈ row.cells, u.x < diff.cols) ∧
      (r = .ok () →
        (∀ y < diff.rows, ∀ x < diff.cols, g'.cells[y * diff.cols + x]? =
          some ((diff.lastCell y x).getD (g.cellBefore diff y x))) ∧
        ∀ y < diff.rows, g'.rowWrapped[y]? =
          some ((diff.lastWrapped y).getD (g.wrappedBefore diff y))) := by
  obtain ⟨g', r, h, hwf, hcols, hrows, hstop⟩ := patch_spec hg diff
  refine ⟨g', r, h, hwf, hcols, hrows, ?_⟩
  rcases hstop with ⟨rfl, hin⟩ | ⟨e, rfl, hname⟩
  · refine ⟨iff_of_true rfl hin, fun _ => ?_⟩
    rw [patch_eq hg hin] at h
    obtain ⟨rfl, -⟩ := Prod.mk.inj (Option.some.inj h)
    refine ⟨fun y hy x hx => ?_, fun y hy => ?_⟩
    · rw [← lastWrite_cellWrites hin hx]
      exact getElem?_overwrite_getD (resizedFor_cells_getElem? hg hy hx)
    · rw [← lastWrite_wrapWrites]
      exact getElem?_overwrite_getD (resizedFor_rowWrapped_getElem? hg hy)
  · exact ⟨iff_of_false nofun hname.not_inRange, nofun⟩

def letter (b : UInt8) : LocalCellData := { blankCell with graphemes := CompactGrapheme.new [b] }

/-- A row that comes twice, with its second cell first and told twice. -/
def repeated : FrameUpdate :=
  { refSeq := 1, cols := 2, rows := 1, cursorX := 0, cursorY := 0, cursorVisible := true
    rowUpdates :=
      [{ y := 0, cells := [{ x := 1, cell := letter 0x62 }, { x := 1, cell := letter 0x63 }]
         isWrapped := true },
       { y := 0, cells := [{ x := 0, cell := letter 0x61 }], isWrapped := false }]
    isEchoEnabled := true }

/-- On a screen of another size. -/
theorem patch_repeated : ∃ g', (blank 1 1).patch repeated = some (g', .ok ()) ∧
    g'.cells[0]? = some (letter 0x61) ∧ g'.cells[1]? = some (letter 0x63) ∧
    g'.rowWrapped[0]? = some false := by
  obtain ⟨g', r, h, -, -, -, hok, hlast⟩ := patch_any_diff (blank_wellFormed 1 1) repeated
  obtain rfl := hok.mpr (by decide)
  obtain ⟨hcells, hwrapped⟩ := hlast rfl
  have hrow : 0 < repeated.rows := by decide
  refine ⟨g', h, (hcells 0 hrow 0 (by decide)).trans ?_, (hcells 0 hrow 1 (by decide)).trans ?_,
    (hwrapped 0 hrow).trans ?_⟩
  · decide
  · decide
  · decide

/-- A row outside of an 80×24 screen is refused. -/
example : ((blank 80 24).patch { repeated with
    cols := 80, rows := 24, rowUpdates := [{ y := 50, cells := [], isWrapped := false }] }).map Prod.snd =
      some (.error (.rowOutOfBounds 50 24)) := rfl

end GridState

end Rumsh.Protocol
