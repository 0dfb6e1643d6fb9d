import Rumsh.Protocol.Grid

/-! What a diff says, and for which grids.

    Up to 65536 cells the scan lists exactly the cells that differ, in order, and patching undoes it.
    Beyond, its `u16` index wraps while every other routine's does not. -/

namespace Rumsh.Protocol
namespace GridState

/-! ### Minimality -/

/-- The cell a diff compares with: the reference's if the sizes agree, else the default one. -/
def refCell (g : GridState) (refState : Option GridState) (y x : ℕ) : LocalCellData :=
  match refState with
  | some r => if r.cols = g.cols ∧ r.rows = g.rows then r.cellAt y x else blankCell
  | none => blankCell

/-- The updates are the cells that differ, each once, by rows and then by columns. -/
structure Minimal (g : GridState) (refState : Option GridState) (diff : FrameUpdate) : Prop where
  present : ∀ y x cell, (∃ r ∈ diff.rowUpdates, r.y = y ∧ { x, cell } ∈ r.cells) ↔
    y < g.rows ∧ x < g.cols ∧ cell = g.cellAt y x ∧ cell ≠ g.refCell refState y x
  rowsAscend : (diff.rowUpdates.map RowUpdate.y).Pairwise (· < ·)
  colsAscend : ∀ r ∈ diff.rowUpdates, (r.cells.map CellUpdate.x).Pairwise (· < ·)

theorem baseOf_cellAt {g : GridState} {refState : Option GridState} {y x : ℕ} (hy : y < g.rows)
    (hx : x < g.cols) : (baseOf g refState).cellAt y x = g.refCell refState y x := by
  have hblank : (blank g.cols g.rows).cellAt y x = blankCell := by
    simp [cellAt, blank, List.getD_eq_getElem?_getD, index_lt hy hx]
  cases refState with
  | none => exact hblank
  | some r =>
    simp only [baseOf, usableRef, refCell]
    split
    · rfl
    · exact hblank

/-- A filtered scan of `range n` whose results carry their index is ascending. -/
theorem pairwise_filterMap_range {α : Type} {f : ℕ → Option α} {key : α → ℕ}
    (hkey : ∀ i a, f i = some a → key a = i) (n : ℕ) :
    (((List.range n).filterMap f).map key).Pairwise (· < ·) := by
  rw [List.pairwise_map]
  refine List.pairwise_lt_range.filterMap f fun i j hij a ha b hb => ?_
  rw [hkey i a ha, hkey j b hb]
  exact hij

theorem cellDelta_x {g base : GridState} {y x : ℕ} {u : CellUpdate}
    (h : cellDelta g base y x = some u) : u.x = x := by
  simp only [cellDelta] at h
  split at h
  · cases h
    rfl
  · cases h

theorem rowDelta_y {g base : GridState} {y : ℕ} {r : RowUpdate} (h : rowDelta g base y = some r) :
    r.y = y := by
  simp only [rowDelta] at h
  split at h
  · cases h
    rfl
  · cases h

/-- A cell that differs is in its row's update. -/
theorem mem_rowDeltas_of_ne {g base : GridState} {y x : ℕ} (hy : y < g.rows) (hx : x < g.cols)
    (hne : g.cellAt y x ≠ base.cellAt y x) :
    ∃ r ∈ (List.range g.rows).filterMap (rowDelta g base), r.y = y ∧
      { x, cell := g.cellAt y x } ∈ r.cells := by
  have hcell : { x, cell := g.cellAt y x } ∈ (List.range g.cols).filterMap (cellDelta g base y) :=
    List.mem_filterMap.mpr ⟨x, List.mem_range.mpr hx, by simp [cellDelta, hne]⟩
  by_contra hno
  have hrow : ∀ r ∈ (List.range g.rows).filterMap (rowDelta g base), r.y ≠ y := by
    intro r hr heq
    obtain ⟨-, -, hcells⟩ := mem_rowDeltas hr
    refine hno ⟨r, hr, heq, ?_⟩
    rw [hcells, heq]
    exact hcell
  rw [(rowDelta_none hy hrow).2] at hcell
  cases hcell

theorem diffFrom_minimal {g : GridState} {refState : Option GridState} (hg : g.WellFormed)
    (href : ∀ r, refState = some r → r.WellFormed) (hsize : g.cols * g.rows ≤ 2 ^ 16) (refSeq : ℕ)
    (echo : Bool) :
    ∃ diff, g.diffFrom refState refSeq echo = some diff ∧ Minimal g refState diff := by
  refine ⟨_, diffFrom_eq hg href hsize refSeq echo, ?_, ?_, ?_⟩
  · intro y x cell
    constructor
    · rintro ⟨r, hr, rfl, hu⟩
      obtain ⟨hy, -, hcells⟩ := mem_rowDeltas hr
      obtain ⟨hx, hcell, hne⟩ := mem_cellDeltas (hcells ▸ hu)
      have hcell : cell = g.cellAt r.y x := hcell
      refine ⟨hy, hx, hcell, ?_⟩
      rw [← baseOf_cellAt hy hx, hcell]
      exact hne
    · rintro ⟨hy, hx, rfl, hne⟩
      rw [← baseOf_cellAt hy hx] at hne
      exact mem_rowDeltas_of_ne hy hx hne
  · exact pairwise_filterMap_range (fun _ _ => rowDelta_y) g.rows
  · intro r hr
    obtain ⟨-, -, hcells⟩ := mem_rowDeltas hr
    rw [hcells]
    exact pairwise_filterMap_range (fun _ _ => cellDelta_x) g.cols

/-- INVERSE: patching undoes the diff, against a reference of any size or none, and the diff lists
    exactly the cells that differ. -/
theorem diff_patch_inverse {a b : GridState} (ha : a.WellFormed) (hb : b.WellFormed)
    (hsize : b.cols * b.rows ≤ 2 ^ 16) (refSeq : ℕ) (echo : Bool) :
    (∃ diff, b.diffFrom (some a) refSeq echo = some diff ∧ a.patch diff = some (b, .ok ()) ∧
      Minimal b (some a) diff) ∧
    ∃ diff, b.diffFrom none refSeq echo = some diff ∧
      (blank b.cols b.rows).patch diff = some (b, .ok ()) ∧ Minimal b none diff := by
  constructor
  · have hwf : ∀ r, some a = some r → r.WellFormed := by
      rintro r ⟨⟩
      exact ha
    obtain ⟨diff, hdiff, hmin⟩ := diffFrom_minimal hb hwf hsize refSeq echo
    exact ⟨diff, hdiff, patch_diffFrom hb ha hsize (.inl rfl) refSeq echo hdiff, hmin⟩
  · have hwf : ∀ r, (none : Option GridState) = some r → r.WellFormed := nofun
    obtain ⟨diff, hdiff, hmin⟩ := diffFrom_minimal hb hwf hsize refSeq echo
    exact ⟨diff, hdiff, patch_diffFrom hb (blank_wellFormed ..) hsize (.inr ⟨rfl, rfl⟩) refSeq echo
      hdiff, hmin⟩

/-- From one cell to two, the second of them a letter. -/
theorem diff_patch_inverse_resized :
    ∃ a b : GridState, a.cols = 1 ∧ b.cols = 2 ∧
      b.cells = [blankCell, { blankCell with graphemes := CompactGrapheme.new [0x61] }] ∧
      ∃ diff, b.diffFrom (some a) 3 true = some diff ∧ a.patch diff = some (b, .ok ()) := by
  obtain ⟨diff, hdiff, hpatch, -⟩ := (diff_patch_inverse (blank_wellFormed 1 1)
    (b := { blank 2 1 with
      cells := [blankCell, { blankCell with graphemes := CompactGrapheme.new [0x61] }] })
    ⟨rfl, rfl⟩ (by decide) 3 true).1
  exact ⟨_, _, rfl, rfl, rfl, diff, hdiff, hpatch⟩

/-! ### Beyond 65536 cells -/

/-- INDEX: for a given size, the scan's index is that of the other routines at every cell, and a diff of
    any grid of that size exists and labels each cell it carries correctly, exactly up to 65536 cells. -/
theorem diffIndex_agrees_iff (cols rows : ℕ) :
    ((∀ y < rows, ∀ x < cols, diffIndex cols y x = y * cols + x) ∧
      ∀ g : GridState, g.WellFormed → g.cols = cols → g.rows = rows →
        ∀ refState, (∀ r, refState = some r → r.WellFormed) → ∀ refSeq echo,
        ∃ diff, g.diffFrom refState refSeq echo = some diff ∧
          ∀ r ∈ diff.rowUpdates, ∀ u ∈ r.cells, g.cells[r.y * cols + u.x]? = some u.cell) ↔
      cols * rows ≤ 2 ^ 16 := by
  constructor
  · rintro ⟨hindex, -⟩
    by_contra hbig
    have hc : 0 < cols := Nat.pos_of_ne_zero fun h0 => by simp [h0] at hbig
    -- the cell with row-major index 65536 wraps to the first one
    have hwrap := hindex (2 ^ 16 / cols) (Nat.div_lt_of_lt_mul (Nat.not_le.mp hbig)) (2 ^ 16 % cols)
      (Nat.mod_lt _ hc)
    rw [diffIndex, Nat.mul_comm (2 ^ 16 / cols), Nat.div_add_mod] at hwrap
    cases hwrap
  · intro hsize
    refine ⟨fun y hy x hx => Nat.mod_eq_of_lt ((index_lt hy hx).trans_le hsize), ?_⟩
    rintro g hg rfl rfl refState href refSeq echo
    refine ⟨_, diffFrom_eq hg href hsize refSeq echo, fun r hr u hu => ?_⟩
    obtain ⟨hy, -, hcells⟩ := mem_rowDeltas hr
    obtain ⟨hx, hcell, -⟩ := mem_cellDeltas (hcells ▸ hu)
    rw [hg.cells_getElem? hy hx, hcell]

/-- The last row of a 256×257 screen is read from its first. -/
theorem diffIndex_wraps : ¬ ∀ y < 257, ∀ x < 256, diffIndex 256 y x = y * 256 + x := by
  intro h
  exact absurd (h 256 (by decide) 0 (by decide)) (by decide)

end GridState

end Rumsh.Protocol
