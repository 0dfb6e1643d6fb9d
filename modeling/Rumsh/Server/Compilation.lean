import Rumsh.Schemes.Run
import Rumsh.Server.CellText

/-! Skipping clean rows.

    An update compiles the rows the emulator reports dirty into the grid of the updates before, which a
    failing call may have left half compiled. What makes this right is that a row that is skipped holds
    what it shows: `HoldsRow`. The one thing written at a place is what the snapshot has there
    (`Writes`), so rows that hold keep holding, and a row is reported clean only after all of it was
    written. -/

namespace Rumsh.Server
open Rumsh.Schemes Rumsh.Protocol Utf8

/-! ### Fallible steps -/

section
variable {σ α β : Type}

/-- No panic: `Q` holds where it fails and `P` where it does not. -/
def Ends (r : Outcome σ α) (Q : σ → Prop) (P : σ → α → Prop) : Prop :=
  ∃ s res, r = some (s, res) ∧ match res with
    | .ok a => P s a
    | .error _ => Q s

theorem ends_ok {s : σ} {a : α} {Q : σ → Prop} {P : σ → α → Prop} (h : P s a) :
    Ends (some (s, .ok a)) Q P := ⟨s, .ok a, rfl, h⟩

theorem Ends.andThen {r : Outcome σ α} {next : σ → α → Outcome σ β} {Q : σ → Prop} {P : σ → α → Prop}
    {P' : σ → β → Prop} (h : Ends r Q P) (hnext : ∀ s a, P s a → Ends (next s a) Q P') :
    Ends (andThen r next) Q P' := by
  obtain ⟨s, res, rfl, h⟩ := h
  cases res with
  | ok a => exact hnext s a h
  | error e => exact ⟨s, .error e, rfl, h⟩

theorem Ends.imp {r : Outcome σ α} {Q Q' : σ → Prop} {P P' : σ → α → Prop} (h : Ends r Q P)
    (hQ : ∀ s, Q s → Q' s) (hP : ∀ s a, P s a → P' s a) : Ends r Q' P' := by
  obtain ⟨s, res, rfl, h⟩ := h
  cases res with
  | ok a => exact ⟨s, .ok a, rfl, hP s a h⟩
  | error e => exact ⟨s, .error e, rfl, hQ s h⟩

end

variable {G : Type} [Ghostty G]

/-! ### The emulator's promise -/

/-- Two snapshots have the same row. -/
structure SameRow (g g' : G) (y : ℕ) : Prop where
  cols : Ghostty.cols g' = Ghostty.cols g
  isWrapped : Ghostty.isWrapped g' y = Ghostty.isWrapped g y
  cell : ∀ x < Ghostty.cols g, Ghostty.cell g' y x = Ghostty.cell g y x

/-- A call after which a row counts as unchanged has not changed it, nor has any call since the row's
    `set_dirty(false)`. -/
def Keeps (changed : G → ℕ → Prop) (g g' : G) : Prop :=
  ∀ y, ¬ changed g' y → ¬ changed g y ∧ SameRow g g' y

/-- What is assumed of the dirty flags, where `changed g y` says that the row changed since its
    `set_dirty(false)`: such a row is dirty, no call but that one forgets a change, and it changes
    nothing that is shown. -/
structure RowFlags (changed : G → ℕ → Prop) : Prop where
  dirty : ∀ g y, changed g y → y < Ghostty.rows g → Ghostty.rowDirty g y = true
  vtWrite : ∀ (g : G) data, Keeps changed g (Ghostty.vtWrite g data).1
  resize : ∀ (g : G) cols rows, Keeps changed g (Ghostty.resize g cols rows).1
  update : ∀ g : G, Keeps changed g (Ghostty.update g).1
  clearDirty : ∀ g : G, Keeps changed g (Ghostty.clearDirty g).1
  clearRowDirty : ∀ (g : G) y z, z ≠ y → ¬ changed (Ghostty.clearRowDirty g y).1 z → ¬ changed g z
  clearRowDirty_row : ∀ (g : G) y z, SameRow g (Ghostty.clearRowDirty g y).1 z
  clearRowDirty_rows : ∀ (g : G) y, Ghostty.rows (Ghostty.clearRowDirty g y).1 = Ghostty.rows g

theorem SameRow.refl (g : G) (y : ℕ) : SameRow g g y := ⟨rfl, rfl, fun _ _ => rfl⟩

theorem SameRow.symm {g g' : G} {y : ℕ} (h : SameRow g g' y) : SameRow g' g y :=
  ⟨h.cols.symm, h.isWrapped.symm, fun x hx => (h.cell x (h.cols ▸ hx)).symm⟩

theorem SameRow.trans {g h k : G} {y : ℕ} (hg : SameRow g h y) (hh : SameRow h k y) : SameRow g k y :=
  ⟨hh.cols.trans hg.cols, hh.isWrapped.trans hg.isWrapped,
    fun x hx => (hh.cell x (hg.cols ▸ hx)).trans (hg.cell x hx)⟩

theorem Keeps.trans {changed : G → ℕ → Prop} {g h k : G} (hg : Keeps changed g h)
    (hh : Keeps changed h k) : Keeps changed g k := by
  intro y hy
  obtain ⟨hy, hsame⟩ := hh y hy
  obtain ⟨hy, hsame'⟩ := hg y hy
  exact ⟨hy, hsame'.trans hsame⟩

/-! ### A compile from scratch -/

/-- The compiled cell. -/
def cellOf (cell : GhosttyCell) : LocalCellData := (compileCell cell).get (isSome_compileCell cell)

theorem compileCell_eq (cell : GhosttyCell) : compileCell cell = some (cellOf cell) :=
  (Option.some_get _).symm

/-- The snapshot compiled in full, row by row. -/
def fullCompile (g : G) : GridState where
  cols := Ghostty.cols g
  rows := Ghostty.rows g
  cursorX := (ServerTerminalState.cursorOf g).1
  cursorY := (ServerTerminalState.cursorOf g).2
  cursorVisible := Ghostty.cursorVisible g
  cells := (List.range (Ghostty.cols g * Ghostty.rows g)).map fun i =>
    cellOf (Ghostty.cell g (i / Ghostty.cols g) (i % Ghostty.cols g))
  rowWrapped := (List.range (Ghostty.rows g)).map (Ghostty.isWrapped g)

/-- The grid's row is the snapshot's, compiled. -/
structure HoldsRow (g : G) (grid : GridState) (y : ℕ) : Prop where
  cols : grid.cols = Ghostty.cols g
  wrapped : grid.rowWrapped[y]? = some (Ghostty.isWrapped g y)
  cell : ∀ x < grid.cols, grid.cells[y * grid.cols + x]? = some (cellOf (Ghostty.cell g y x))

theorem HoldsRow.sameRow {g g' : G} {grid : GridState} {y : ℕ} (h : HoldsRow g grid y)
    (hs : SameRow g g' y) : HoldsRow g' grid y where
  cols := h.cols.trans hs.cols.symm
  wrapped := by rw [h.wrapped, hs.isWrapped]
  cell x hx := by rw [h.cell x hx, hs.cell x (h.cols ▸ hx)]

/-- A grid that holds every row is the full compile, up to the cursor. -/
theorem eq_fullCompile {g : G} {grid : GridState} (hwf : grid.WellFormed)
    (hcols : grid.cols = Ghostty.cols g) (hrows : grid.rows = Ghostty.rows g)
    (h : ∀ y < grid.rows, HoldsRow g grid y) :
    { grid with cursorX := (ServerTerminalState.cursorOf g).1
                cursorY := (ServerTerminalState.cursorOf g).2
                cursorVisible := Ghostty.cursorVisible g } = fullCompile g := by
  have hcells : grid.cells = (fullCompile g).cells := by
    refine List.ext_getElem? fun i => ?_
    by_cases hi : i < grid.cols * grid.rows
    · obtain ⟨y, x, hy, hx, rfl⟩ := GridState.exists_coords hi
      rw [(h y hy).cell x hx, fullCompile, List.getElem?_map, ← hcols, ← hrows,
        List.getElem?_range hi, Option.map_some, GridState.index_div y hx, GridState.index_mod y hx]
    · rw [List.getElem?_eq_none (by rw [hwf.cells]; omega), List.getElem?_eq_none]
      rw [fullCompile, List.length_map, List.length_range, ← hcols, ← hrows]
      omega
  have hwrapped : grid.rowWrapped = (fullCompile g).rowWrapped := by
    refine List.ext_getElem? fun y => ?_
    by_cases hy : y < grid.rows
    · rw [(h y hy).wrapped, fullCompile, List.getElem?_map, List.getElem?_range (hrows ▸ hy),
        Option.map_some]
    · rw [List.getElem?_eq_none (by rw [hwf.rowWrapped]; omega), List.getElem?_eq_none]
      rw [fullCompile, List.length_map, List.length_range, ← hrows]
      omega
  rw [hcells, hwrapped, hcols, hrows]
  rfl

/-! ### What is written -/

/-- Every place holds what it held, or what the snapshot has there. -/
structure Writes (g : G) (grid grid' : GridState) : Prop where
  cols : grid'.cols = grid.cols
  rows : grid'.rows = grid.rows
  cells : grid'.cells.length = grid.cells.length
  rowWrapped : grid'.rowWrapped.length = grid.rowWrapped.length
  wrapped : ∀ y, grid'.rowWrapped[y]? = grid.rowWrapped[y]? ∨
    grid'.rowWrapped[y]? = some (Ghostty.isWrapped g y)
  cell : ∀ y, ∀ x < grid.cols, grid'.cells[y * grid.cols + x]? = grid.cells[y * grid.cols + x]? ∨
    grid'.cells[y * grid.cols + x]? = some (cellOf (Ghostty.cell g y x))

variable {g : G} {grid grid' grid'' : GridState} {y : ℕ}

theorem Writes.refl (g : G) (grid : GridState) : Writes g grid grid :=
  ⟨rfl, rfl, rfl, rfl, fun _ => .inl rfl, fun _ _ _ => .inl rfl⟩

theorem Writes.trans (h : Writes g grid grid') (h' : Writes g grid' grid'') : Writes g grid grid'' where
  cols := h'.cols.trans h.cols
  rows := h'.rows.trans h.rows
  cells := h'.cells.trans h.cells
  rowWrapped := h'.rowWrapped.trans h.rowWrapped
  wrapped y := (h'.wrapped y).elim (fun heq => (h.wrapped y).imp heq.trans heq.trans) .inr
  cell y x hx := by
    have hx' := h'.cell y x (h.cols ▸ hx)
    rw [h.cols] at hx'
    exact hx'.elim (fun heq => (h.cell y x hx).imp heq.trans heq.trans) .inr

theorem Writes.wellFormed (h : Writes g grid grid') (hwf : grid.WellFormed) : grid'.WellFormed :=
  ⟨by rw [h.cells, h.cols, h.rows, hwf.cells], by rw [h.rowWrapped, h.rows, hwf.rowWrapped]⟩

/-- What a place was given it keeps. -/
theorem Writes.cell_of_eq (h : Writes g grid grid') {x : ℕ} (hx : x < grid.cols)
    (hcell : grid.cells[y * grid.cols + x]? = some (cellOf (Ghostty.cell g y x))) :
    grid'.cells[y * grid.cols + x]? = some (cellOf (Ghostty.cell g y x)) :=
  (h.cell y x hx).elim (·.trans hcell) id

/-- A row that holds keeps holding. -/
theorem HoldsRow.writes (h : HoldsRow g grid y) (hw : Writes g grid grid') : HoldsRow g grid' y where
  cols := hw.cols.trans h.cols
  wrapped := (hw.wrapped y).elim (·.trans h.wrapped) id
  cell x hx := by
    rw [hw.cols] at hx ⊢
    exact hw.cell_of_eq hx (h.cell x hx)

/-- STEP: one cell. -/
theorem writes_cell {i x : ℕ} (hi : i = y * grid.cols + x) (hx : x < grid.cols)
    (hlen : i < grid.cells.length) :
    Writes g grid { grid with cells := grid.cells.set i (cellOf (Ghostty.cell g y x)) } where
  cols := rfl
  rows := rfl
  cells := List.length_set
  rowWrapped := rfl
  wrapped _ := .inl rfl
  cell z w hw := by
    dsimp only
    by_cases heq : i = z * grid.cols + w
    · obtain ⟨rfl, rfl⟩ := GridState.coords_unique hx hw (hi.symm.trans heq)
      exact .inr (heq ▸ List.getElem?_set_self hlen)
    · exact .inl (List.getElem?_set_ne heq)

/-- STEP: one flag. -/
theorem writes_wrapped (hy : y < grid.rowWrapped.length) :
    Writes g grid { grid with rowWrapped := grid.rowWrapped.set y (Ghostty.isWrapped g y) } where
  cols := rfl
  rows := rfl
  cells := rfl
  rowWrapped := List.length_set
  wrapped z := by
    dsimp only
    by_cases heq : y = z
    · subst heq
      exact .inr (List.getElem?_set_self hy)
    · exact .inl (List.getElem?_set_ne heq)
  cell _ _ _ := .inl rfl

/-! ### The row loop -/

namespace ServerTerminalState
variable {changed : G → ℕ → Prop} {s s' : ServerTerminalState G}

/-- The grid has the dimensions kept, and between full compiles every row without a change holds. -/
structure Current (changed : G → ℕ → Prop) (s : ServerTerminalState G) : Prop where
  wellFormed : s.gridState.WellFormed
  cols : s.gridState.cols = s.cols
  rows : s.gridState.rows = s.rows
  held : s.forceFull = false → ∀ y < s.rows, ¬ changed s.terminal y → HoldsRow s.terminal s.gridState y

/-- The dimensions kept are the snapshot's, and what it shows is still there. -/
structure OnSnapshot (g : G) (s : ServerTerminalState G) : Prop where
  cols : s.cols = Ghostty.cols g
  rows : s.rows = Ghostty.rows g
  sameRows : Ghostty.rows s.terminal = Ghostty.rows g
  same : ∀ y, SameRow g s.terminal y

/-- Only the grid changed, and by right writes. -/
def Filled (g : G) (s s' : ServerTerminalState G) : Prop :=
  ∃ grid, s' = { s with gridState := grid } ∧ Writes g s.gridState grid

theorem Filled.refl (g : G) (s : ServerTerminalState G) : Filled g s s := ⟨_, rfl, Writes.refl ..⟩

theorem Filled.writes (h : Filled g s s') : Writes g s.gridState s'.gridState := by
  obtain ⟨grid, rfl, hw⟩ := h
  exact hw

theorem Filled.onSnapshot (h : Filled g s s') (hs : s.OnSnapshot g) : s'.OnSnapshot g := by
  obtain ⟨grid, rfl, -⟩ := h
  exact ⟨hs.cols, hs.rows, hs.sameRows, hs.same⟩

theorem Filled.current (h : Filled g s s') (hs : s.OnSnapshot g) (hc : s.Current changed) :
    s'.Current changed := by
  obtain ⟨grid, rfl, hw⟩ := h
  refine ⟨hw.wellFormed hc.wellFormed, hw.cols.trans hc.cols, hw.rows.trans hc.rows,
    fun hf y hy hch => ?_⟩
  have hold := (hc.held hf y hy hch).sameRow (hs.same y).symm
  exact (hold.writes hw).sameRow (hs.same y)

theorem Filled.trans {s'' : ServerTerminalState G} (h : Filled g s s') (h' : Filled g s' s'') :
    Filled g s s'' := by
  obtain ⟨grid, rfl, hw⟩ := h
  obtain ⟨grid', rfl, hw'⟩ := h'
  exact ⟨grid', rfl, hw.trans hw'⟩

/-- An accessor that fails leaves the state as it is. -/
theorem ends_check {α : Type} {call : GhosttyCall}
    {next : ServerTerminalState G → Unit → Outcome (ServerTerminalState G) α}
    {Q : ServerTerminalState G → Prop} {P : ServerTerminalState G → α → Prop} (hQ : Q s)
    (h : Ends (next s ()) Q P) : Ends (andThen (s.check call) next) Q P := by
  unfold check
  split
  · exact ⟨s, .error .terminal, rfl, hQ⟩
  · exact h

/-- STEP: a cell of the row is written, or a call failed. -/
theorem ends_compileAt (hs : s.OnSnapshot g) (hc : s.Current changed) (hy : y < s.rows) {x : ℕ}
    (hx : x < s.cols) : Ends (s.compileAt y x) (Filled g s) fun s' _ => Filled g s s' ∧
      s'.gridState.cells[y * s.gridState.cols + x]? = some (cellOf (Ghostty.cell g y x)) := by
  have hx' : x < s.gridState.cols := hc.cols ▸ hx
  have hidx : y * s.cols + x = y * s.gridState.cols + x := by rw [hc.cols]
  have hlen : y * s.cols + x < s.gridState.cells.length := by
    rw [hidx, hc.wellFormed.cells]
    exact GridState.index_lt (hc.rows ▸ hy) hx'
  have hcell : Ghostty.cell s.terminal y x = Ghostty.cell g y x := (hs.same y).cell x (hs.cols ▸ hx)
  have hQ := Filled.refl g s
  refine ends_check hQ ?_
  refine Ends.andThen (P := fun s' _ => s' = s) ?_ ?_
  · split
    · exact ends_ok rfl
    · unfold check
      split
      · exact ⟨s, .error .terminal, rfl, hQ⟩
      · exact ends_ok rfl
  rintro _ - rfl
  rw [compileCell_eq, Option.bind_some]
  refine ends_check hQ (ends_check hQ (ends_check hQ (ends_ok ?_)))
  rw [hcell, ← hidx]
  exact ⟨⟨_, rfl, writes_cell hidx hx' hlen⟩, List.getElem?_set_self hlen⟩

/-- RUN: the cells of a row, as far as no call fails. -/
theorem ends_compileCells : ∀ (xs : List ℕ) {s : ServerTerminalState G},
    s.OnSnapshot g → s.Current changed → y < s.rows → (∀ x ∈ xs, x < s.cols) →
    Ends (s.compileCells y xs) (Filled g s) fun s' _ => Filled g s s' ∧
      ∀ x ∈ xs, s'.gridState.cells[y * s.gridState.cols + x]? = some (cellOf (Ghostty.cell g y x))
  | [], s, _, _, _, _ => ends_ok ⟨Filled.refl g s, fun _ h => nomatch h⟩
  | x :: xs, s, hs, hc, hy, hxs => by
      obtain ⟨hx, hxs⟩ := List.forall_mem_cons.mp hxs
      refine (ends_compileAt hs hc hy hx).andThen fun t _ ⟨hf, hcell⟩ => ?_
      have hdims : t.cols = s.cols ∧ t.rows = s.rows := by
        obtain ⟨grid, rfl, -⟩ := hf
        exact ⟨rfl, rfl⟩
      have hrest := ends_compileCells xs (hf.onSnapshot hs) (hf.current hs hc) (hdims.2 ▸ hy)
        (hdims.1 ▸ hxs)
      refine hrest.imp (fun _ => hf.trans) fun u _ ⟨hf', hcells⟩ => ⟨hf.trans hf', ?_⟩
      have hcols := hf.writes.cols
      rw [hcols] at hcells
      have hx' : x < t.gridState.cols := by rw [hcols, hc.cols]; exact hx
      rw [← hcols] at hcell
      exact List.forall_mem_cons.mpr ⟨hcols ▸ hf'.writes.cell_of_eq hx' hcell, hcells⟩

/-- Between two rows: the state is current on the snapshot, and a later grid came of right writes. -/
structure Between (changed : G → ℕ → Prop) (g : G) (s s' : ServerTerminalState G) : Prop where
  current : s'.Current changed
  onSnapshot : s'.OnSnapshot g
  writes : Writes g s.gridState s'.gridState
  forceFull : s'.forceFull = s.forceFull

theorem Between.trans {s'' : ServerTerminalState G} (h : Between changed g s s')
    (h' : Between changed g s' s'') : Between changed g s s'' :=
  ⟨h'.current, h'.onSnapshot, h.writes.trans h'.writes, h'.forceFull.trans h.forceFull⟩

theorem Filled.between (h : Filled g s s') (hs : s.OnSnapshot g) (hc : s.Current changed) :
    Between changed g s s' := by
  refine ⟨h.current hs hc, h.onSnapshot hs, h.writes, ?_⟩
  obtain ⟨grid, rfl, -⟩ := h
  rfl

/-- STEP: the flag of a row that holds may be cleared, and may fail to be. -/
theorem ends_clearRow (hflags : RowFlags changed) (hs : s.OnSnapshot g) (hc : s.Current changed)
    (hy : HoldsRow g s.gridState y) : Ends (s.clearRow y) (Between changed g s) fun s' _ =>
      Between changed g s s' ∧ HoldsRow g s'.gridState y := by
  have hsame : ∀ z, SameRow g (Ghostty.clearRowDirty s.terminal y).1 z := fun z =>
    (hs.same z).trans (hflags.clearRowDirty_row s.terminal y z)
  have hon : OnSnapshot g { s with terminal := (Ghostty.clearRowDirty s.terminal y).1 } :=
    ⟨hs.cols, hs.rows, (hflags.clearRowDirty_rows s.terminal y).trans hs.sameRows, hsame⟩
  have hcur : Current changed { s with terminal := (Ghostty.clearRowDirty s.terminal y).1 } := by
    refine ⟨hc.wellFormed, hc.cols, hc.rows, fun hf z hz hch => ?_⟩
    by_cases hzy : z = y
    · exact hzy ▸ hy.sameRow (hsame y)
    · have hold := hc.held hf z hz (hflags.clearRowDirty s.terminal y z hzy hch)
      exact hold.sameRow (hflags.clearRowDirty_row s.terminal y z)
  have hmid : Between changed g s { s with terminal := (Ghostty.clearRowDirty s.terminal y).1 } :=
    ⟨hcur, hon, Writes.refl .., rfl⟩
  unfold clearRow
  refine ⟨_, _, rfl, ?_⟩
  split
  · exact ⟨hmid, hy⟩
  · exact hmid

/-- STEP: a row is compiled, or a call failed. -/
theorem ends_compileRow (hflags : RowFlags changed) (hs : s.OnSnapshot g) (hc : s.Current changed)
    (hy : y < s.rows) : Ends (s.compileRow y) (Between changed g s) fun s' _ =>
      Between changed g s s' ∧ HoldsRow g s'.gridState y := by
  have hQ := (Filled.refl g s).between hs hc
  have hlen : y < s.gridState.rowWrapped.length := by
    rw [hc.wellFormed.rowWrapped, hc.rows]
    exact hy
  have hwrapped : Ghostty.isWrapped s.terminal y = Ghostty.isWrapped g y := (hs.same y).isWrapped
  refine ends_check hQ (ends_check hQ ?_)
  rw [setWrapped, if_pos hlen, hwrapped]
  have hw : Filled g s { s with gridState := { s.gridState with
      rowWrapped := s.gridState.rowWrapped.set y (Ghostty.isWrapped g y) } } :=
    ⟨_, rfl, writes_wrapped hlen⟩
  refine ends_check (hw.between hs hc) ?_
  have hcols : ∀ x ∈ List.range (Ghostty.cols s.terminal), x < s.cols := fun x hx => by
    rw [hs.cols, ← (hs.same y).cols]
    exact List.mem_range.mp hx
  have hcells := ends_compileCells _ (hw.onSnapshot hs) (hw.current hs hc) hy hcols
  refine Ends.andThen (hcells.imp (fun t ht => (hw.trans ht).between hs hc) fun t _ ht => ht) ?_
  rintro t - ⟨hf, hfilled⟩
  have hft := hw.trans hf
  refine (ends_clearRow hflags (hft.onSnapshot hs) (hft.current hs hc) ⟨?_, ?_, fun x hx => ?_⟩).imp
    (fun _ => (hft.between hs hc).trans) fun _ _ h => ⟨(hft.between hs hc).trans h.1, h.2⟩
  · rw [hft.writes.cols, hc.cols, hs.cols]
  · exact (hf.writes.wrapped y).elim (·.trans (List.getElem?_set_self hlen)) id
  · have hcol : t.gridState.cols = s.gridState.cols := hft.writes.cols
    rw [hcol] at hx ⊢
    refine hfilled x (List.mem_range.mpr ?_)
    rw [(hs.same y).cols, ← hs.cols, ← hc.cols]
    exact hx

/-- STEP: after its turn a row holds. -/
theorem ends_visitRow (hflags : RowFlags changed) (hs : s.OnSnapshot g) (hc : s.Current changed)
    (hy : y < s.rows) : Ends (s.visitRow y) (Between changed g s) fun s' _ =>
      Between changed g s s' ∧ HoldsRow g s'.gridState y := by
  have hcompile := ends_compileRow hflags hs hc hy
  have hQ := (Filled.refl g s).between hs hc
  unfold visitRow
  split
  · exact hcompile
  · rename_i hf
    refine ends_check hQ ?_
    split
    · exact hcompile
    · rename_i hd
      -- a clean row has not changed since it was compiled
      have hlt : y < Ghostty.rows s.terminal := by rwa [hs.sameRows, ← hs.rows]
      have hch : ¬ changed s.terminal y := fun h => hd (hflags.dirty s.terminal y h hlt)
      have hold := hc.held (Bool.eq_false_iff.mpr hf) y hy hch
      exact ends_ok ⟨hQ, hold.sameRow (hs.same y).symm⟩

/-- RUN: after the loop every row visited holds. -/
theorem ends_visitRows (hflags : RowFlags changed) : ∀ (ys : List ℕ) {s : ServerTerminalState G},
    s.OnSnapshot g → s.Current changed → (∀ y ∈ ys, y < s.rows) →
    Ends (s.visitRows ys) (Between changed g s) fun s' _ =>
      Between changed g s s' ∧ ∀ y ∈ ys, HoldsRow g s'.gridState y
  | [], s, hs, hc, _ => ends_ok ⟨(Filled.refl g s).between hs hc, fun _ h => nomatch h⟩
  | y :: ys, s, hs, hc, hys => by
      obtain ⟨hy, hys⟩ := List.forall_mem_cons.mp hys
      refine (ends_visitRow hflags hs hc hy).andThen fun t _ ⟨ht, hrow⟩ => ?_
      have hrows : t.rows = s.rows := ht.onSnapshot.rows.trans hs.rows.symm
      have hrest := ends_visitRows hflags ys ht.onSnapshot ht.current (hrows ▸ hys)
      exact hrest.imp (fun _ => ht.trans) fun u _ ⟨hu, hrest⟩ =>
        ⟨ht.trans hu, List.forall_mem_cons.mpr ⟨hrow.writes hu.writes, hrest⟩⟩

/-! ### An update -/

/-- A call that forgets no change. -/
theorem Current.keeps (hc : s.Current changed) {terminal : G} (h : Keeps changed s.terminal terminal) :
    Current changed { s with terminal } := by
  refine ⟨hc.wellFormed, hc.cols, hc.rows, fun hf y hy hch => ?_⟩
  obtain ⟨hch, hsame⟩ := h y hch
  exact (hc.held hf y hy hch).sameRow hsame

theorem current_reset (cols rows : ℕ) : Current changed (s.reset cols rows) :=
  ⟨⟨List.length_replicate, List.length_replicate⟩, rfl, rfl, fun hf => nomatch hf⟩

theorem current_resync (hc : s.Current changed) :
    Current changed (s.resync (Ghostty.cols s.terminal) (Ghostty.rows s.terminal)) := by
  unfold resync
  split
  · exact current_reset ..
  · exact hc

theorem onSnapshot_resync :
    OnSnapshot s.terminal (s.resync (Ghostty.cols s.terminal) (Ghostty.rows s.terminal)) := by
  unfold resync
  split
  · exact ⟨rfl, rfl, rfl, SameRow.refl _⟩
  · rename_i h
    exact ⟨by_contra fun hne => h (.inl hne), by_contra fun hne => h (.inr hne), rfl, SameRow.refl _⟩

/-- When every row holds, nothing is left to be compiled in full. -/
theorem Between.current_of_holds (h : Between changed g s s')
    (hrows : ∀ y ∈ List.range (Ghostty.rows g), HoldsRow g s'.gridState y) :
    Current changed { s' with forceFull := false } := by
  refine ⟨h.current.wellFormed, h.current.cols, h.current.rows, fun _ y hy _ => ?_⟩
  have hlt : y ∈ List.range (Ghostty.rows g) := List.mem_range.mpr (h.onSnapshot.rows ▸ hy)
  exact (hrows y hlt).sameRow (h.onSnapshot.same y)

/-- UPDATE: it never panics and leaves the state current, and the grid it returns is the full compile of
    its snapshot. -/
theorem ends_updateAndGetState (hflags : RowFlags changed) (hc : s.Current changed) :
    Ends s.updateAndGetState (Current changed) fun s' grid => s'.Current changed ∧
      grid = s'.gridState ∧ grid = fullCompile (Ghostty.update s.terminal).1 := by
  have hg : Current changed { s with terminal := (Ghostty.update s.terminal).1 } :=
    hc.keeps (hflags.update s.terminal)
  have hsnap : Ends s.snapshot (Current changed) fun s' _ =>
      s' = { s with terminal := (Ghostty.update s.terminal).1 } := by
    refine ⟨_, _, rfl, ?_⟩
    split
    · rfl
    · exact hg
  refine hsnap.andThen ?_
  rintro _ - rfl
  refine ends_check hg (ends_check hg (ends_check hg (ends_check hg ?_)))
  generalize (Ghostty.update s.terminal).1 = g at hg ⊢
  have hon : OnSnapshot g (resync { s with terminal := g } (Ghostty.cols g) (Ghostty.rows g)) :=
    onSnapshot_resync (s := { s with terminal := g })
  have hcur := current_resync hg
  refine ends_check hcur ?_
  have hin : ∀ y ∈ List.range (Ghostty.rows g),
      y < (resync { s with terminal := g } (Ghostty.cols g) (Ghostty.rows g)).rows := fun y hy => by
    rw [hon.rows]
    exact List.mem_range.mp hy
  have hloop := ends_visitRows hflags _ hon hcur hin
  refine (hloop.imp (fun _ h => h.current) fun _ _ h => h).andThen fun t _ ⟨ht, hrows⟩ => ?_
  have hdone := ht.current_of_holds hrows
  have hclean : Ends (clean { t with forceFull := false }) (Current changed) fun s' _ =>
      s' = { t with forceFull := false, terminal := (Ghostty.clearDirty t.terminal).1 } ∧
        s'.Current changed := by
    have hkept := hdone.keeps (hflags.clearDirty t.terminal)
    refine ⟨_, _, rfl, ?_⟩
    split
    · exact ⟨rfl, hkept⟩
    · exact hkept
  refine hclean.andThen ?_
  rintro _ - ⟨rfl, hkept⟩
  have hgrid : ∀ y < t.gridState.rows, HoldsRow g t.gridState y := fun y hy =>
    hrows y (List.mem_range.mpr (ht.onSnapshot.rows ▸ ht.current.rows ▸ hy))
  refine ends_ok ⟨⟨⟨hkept.wellFormed.cells, hkept.wellFormed.rowWrapped⟩, hkept.cols, hkept.rows,
    fun hf y hy hch => ?_⟩, rfl, ?_⟩
  · have hold := hkept.held hf y hy hch
    exact ⟨hold.cols, hold.wrapped, hold.cell⟩
  · exact eq_fullCompile ht.current.wellFormed (ht.current.cols.trans ht.onSnapshot.cols)
      (ht.current.rows.trans ht.onSnapshot.rows) hgrid

/-! ### Runs -/

/-- What is called on the state. -/
inductive TerminalCall where
  | write (data : Bytes)
  | resize (cols rows : ℕ)
  | update
  deriving DecidableEq, Repr

/-- The state after a call, failed or not. -/
def call (s : ServerTerminalState G) : TerminalCall → Option (ServerTerminalState G)
  | .write data => some (s.write data).1
  | .resize cols rows => some (s.resize cols rows).1
  | .update => s.updateAndGetState.map Prod.fst

theorem current_new {cols rows : ℕ} (h : new cols rows = .ok s) : s.Current changed := by
  unfold new at h
  cases hterminal : (Ghostty.new cols rows : Except Error G) with
  | error e =>
    rw [hterminal] at h
    cases h
  | ok terminal =>
    rw [hterminal] at h
    obtain rfl := Except.ok.inj h
    exact ⟨GridState.blank_wellFormed .., rfl, rfl, fun hf => nomatch hf⟩

/-- STEP: a call keeps the state current. -/
theorem current_call (hflags : RowFlags changed) (hc : s.Current changed) (c : TerminalCall) :
    ∃ s', s.call c = some s' ∧ s'.Current changed := by
  cases c with
  | write data => exact ⟨_, rfl, hc.keeps (hflags.vtWrite s.terminal data)⟩
  | resize cols rows =>
    refine ⟨_, rfl, ?_⟩
    have hkept := hc.keeps (hflags.resize s.terminal cols rows)
    unfold resize
    split
    · rename_i terminal replies e h
      rw [h] at hkept
      exact hkept
    · exact current_reset ..
  | update =>
    obtain ⟨s', res, h, hres⟩ := ends_updateAndGetState hflags hc
    refine ⟨s', by rw [call, h, Option.map_some], ?_⟩
    cases res with
    | ok grid => exact hres.1
    | error e => exact hres

/-- RUN: any calls. -/
theorem current_run (hflags : RowFlags changed) : ∀ (calls : List TerminalCall)
    {s : ServerTerminalState G}, s.Current changed →
    ∃ s', runFrom call s calls = some s' ∧ s'.Current changed
  | [], s, hc => ⟨s, rfl, hc⟩
  | c :: calls, s, hc => by
      obtain ⟨t, ht, hct⟩ := current_call hflags hc c
      obtain ⟨s', hs', hc'⟩ := current_run hflags calls hct
      exact ⟨s', by rw [runFrom_cons, ht, Option.bind_some, hs'], hc'⟩

/-- INCREMENTAL IS FULL: after any calls, failed ones among them, an update does not panic, and the grid it
    returns is the full compile of the snapshot it took. -/
theorem incremental_eq_full (hflags : RowFlags changed) {cols rows : ℕ} {s₀ : ServerTerminalState G}
    (hnew : new cols rows = .ok s₀) (calls : List TerminalCall) :
    ∃ s s' res, runFrom call s₀ calls = some s ∧ s.updateAndGetState = some (s', res) ∧
      ∀ grid, res = .ok grid → s'.gridState = grid ∧ grid = fullCompile (Ghostty.update s.terminal).1 := by
  obtain ⟨s, hs, hc⟩ := current_run hflags calls (current_new hnew)
  obtain ⟨s', res, h, hres⟩ := ends_updateAndGetState hflags hc
  refine ⟨s, s', res, hs, h, ?_⟩
  rintro grid rfl
  exact ⟨hres.2.1.symm, hres.2.2⟩

end ServerTerminalState

/-! ### An emulator of one cell -/

/-- Every byte goes to the first cell, but 0x18 makes the style of that cell fail or succeed again. -/
structure OneCell where
  cols : ℕ
  rows : ℕ
  char : Char
  dirty : ℕ → Bool
  failing : Bool

namespace OneCell

def put (t : OneCell) (b : UInt8) : OneCell :=
  if b = 0x18 then { t with failing := !t.failing }
  else { t with char := Char.ofNat b.toNat, dirty := fun y => y = 0 || t.dirty y }

def cellAt (t : OneCell) (y x : ℕ) : GhosttyCell where
  graphemes := if y = 0 ∧ x = 0 then [t.char] else []
  fgColor := none
  bgColor := none
  bold := false
  italic := false
  inverse := false
  underline := false

instance : Ghostty OneCell where
  new cols rows := .ok { cols, rows, char := ' ', dirty := fun _ => true, failing := false }
  vtWrite t data := (data.foldl put t, [])
  resize t cols rows := ({ t with cols, rows, dirty := fun _ => true }, [], .ok ())
  update t := (t, .ok ())
  fails t call := t.failing && call = .style 0 0
  cols := cols
  rows := rows
  cursorVisible _ := true
  cursorViewport _ := some (0, 0)
  rowDirty := dirty
  isWrapped _ _ := false
  cell := cellAt
  clearRowDirty t y := ({ t with dirty := Function.update t.dirty y false }, .ok ())
  clearDirty t := (t, .ok ())

/-- Its flags mark what changed. -/
def Changed (t : OneCell) (y : ℕ) : Prop := t.dirty y = true

theorem keeps_refl (t : OneCell) : Keeps Changed t t := fun y hy => ⟨hy, SameRow.refl t y⟩

theorem keeps_put (t : OneCell) (b : UInt8) : Keeps Changed t (t.put b) := by
  unfold put
  split
  · exact fun y hy => ⟨hy, rfl, rfl, fun _ _ => rfl⟩
  · intro y hy
    simp only [Changed, Bool.or_eq_true, decide_eq_true_eq, not_or] at hy
    refine ⟨hy.2, rfl, rfl, fun x _ => ?_⟩
    have hcond : ¬ (y = 0 ∧ x = 0) := fun h => hy.1 h.1
    change cellAt _ y x = cellAt _ y x
    simp only [cellAt, if_neg hcond]

theorem keeps_puts : ∀ (data : Bytes) (t : OneCell), Keeps Changed t (data.foldl put t)
  | [], t => keeps_refl t
  | b :: data, t => (keeps_put t b).trans (keeps_puts data (t.put b))

theorem rowFlags : RowFlags Changed where
  dirty _ _ h _ := h
  vtWrite t data := keeps_puts data t
  resize _ _ _ _ hy := absurd rfl hy
  update := keeps_refl
  clearDirty := keeps_refl
  clearRowDirty t y z hz hch := by
    change ¬ Function.update t.dirty y false z = true at hch
    rwa [Function.update_of_ne hz] at hch
  clearRowDirty_row _ _ _ := ⟨rfl, rfl, fun _ _ => rfl⟩
  clearRowDirty_rows _ _ := rfl

/-- The state of a new screen of two rows. -/
def screen : ServerTerminalState OneCell where
  terminal := { cols := 1, rows := 2, char := ' ', dirty := fun _ => true, failing := false }
  cols := 1
  rows := 2
  gridState := GridState.blank 1 2
  forceFull := true

theorem screen_new : ServerTerminalState.new 1 2 = .ok screen := rfl

/-- An update, a write, an update that fails in the first row, and a last write. -/
def calls : List ServerTerminalState.TerminalCall :=
  [.write [0x61], .update, .write [0x62, 0x18], .update, .write [0x18]]

theorem update_after_failure : ∃ s s' grid, runFrom ServerTerminalState.call screen calls = some s ∧
    s.updateAndGetState = some (s', .ok grid) ∧ grid = fullCompile (Ghostty.update s.terminal).1 := by
  obtain ⟨s, s', res, hs, hupd, hgrid⟩ :=
    ServerTerminalState.incremental_eq_full rowFlags screen_new calls
  have hok : ((runFrom ServerTerminalState.call screen calls).bind fun s =>
      s.updateAndGetState.map fun r => r.2.toOption.isSome) = some true := rfl
  rw [hs, Option.bind_some, hupd, Option.map_some, Option.some_inj] at hok
  cases res with
  | ok grid => exact ⟨s, s', grid, hs, hupd, (hgrid grid rfl).2⟩
  | error e => cases hok

end OneCell

end Rumsh.Server
