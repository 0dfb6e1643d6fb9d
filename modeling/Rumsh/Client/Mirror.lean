import Rumsh.Client.Echo

/-! The operations on the mirror, and what each leaves of the screen and of the painter's flags.

    `Marks` relates two frames of one size: what differs between them is marked in the second. Every
    operation but those of local echo is such a step, or starts a new screen with every row marked. -/

namespace Rumsh.Client
open Rumsh.Schemes Rumsh.Protocol

namespace TerminalFrame

/-- `consume_updates` hands the frame out. -/
def flagged (f : TerminalFrame) : Bool := f.dirty || f.clearRequested

def cellAt (f : TerminalFrame) (x y : ℕ) : Option LocalCellData := f.cellCache[y * f.cols + x]?

/-- The row is marked to be painted. -/
def rowMarked (f : TerminalFrame) (y : ℕ) : Prop := f.rowDirty[y]? = some true

/-- A frame of the same size: marks are kept, and every difference is marked. -/
structure Marks (f f' : TerminalFrame) : Prop where
  cols : f'.cols = f.cols
  rows : f'.rows = f.rows
  cells : f'.cellCache.length = f.cellCache.length
  rowDirty : f'.rowDirty.length = f.rowDirty.length
  keptRow : ∀ y, f.rowMarked y → f'.rowMarked y
  keptFlag : f.flagged = true → f'.flagged = true
  keptClear : f.clearRequested = true → f'.clearRequested = true
  cell : ∀ x y, x < f.cols → y < f.rows → f'.cellAt x y ≠ f.cellAt x y →
    f'.rowMarked y ∧ f'.flagged = true
  cursor : (f'.cursor, f'.cursorVisible) ≠ (f.cursor, f.cursorVisible) → f'.flagged = true

theorem Marks.refl (f : TerminalFrame) : Marks f f :=
  ⟨rfl, rfl, rfl, rfl, fun _ => id, id, id, fun _ _ _ _ h => absurd rfl h, fun h => absurd rfl h⟩

theorem Marks.trans {f g h : TerminalFrame} (hfg : Marks f g) (hgh : Marks g h) : Marks f h where
  cols := hgh.cols.trans hfg.cols
  rows := hgh.rows.trans hfg.rows
  cells := hgh.cells.trans hfg.cells
  rowDirty := hgh.rowDirty.trans hfg.rowDirty
  keptRow y hy := hgh.keptRow y (hfg.keptRow y hy)
  keptFlag hf := hgh.keptFlag (hfg.keptFlag hf)
  keptClear hf := hgh.keptClear (hfg.keptClear hf)
  cell x y hx hy hne := by
    by_cases hfirst : g.cellAt x y = f.cellAt x y
    · exact hgh.cell x y (hfg.cols ▸ hx) (hfg.rows ▸ hy) (hfirst ▸ hne)
    · obtain ⟨hrow, hflag⟩ := hfg.cell x y hx hy hfirst
      exact ⟨hgh.keptRow y hrow, hgh.keptFlag hflag⟩
  cursor hne := by
    by_cases hfirst : (g.cursor, g.cursorVisible) = (f.cursor, f.cursorVisible)
    · exact hgh.cursor (hfirst ▸ hne)
    · exact hgh.keptFlag (hfg.cursor hfirst)

theorem Marks.sized {f f' : TerminalFrame} (h : Marks f f') (hf : f.Sized) : f'.Sized :=
  ⟨by rw [h.cells, h.cols, h.rows, hf.cells], by rw [h.rowDirty, h.rows, hf.rowDirty]⟩

/-- A new screen: everything is to be painted. -/
structure Cleared (f : TerminalFrame) : Prop where
  rows : ∀ y < f.rows, f.rowMarked y
  clearRequested : f.clearRequested = true

theorem Cleared.marks {f f' : TerminalFrame} (h : Cleared f) (hm : Marks f f') : Cleared f' :=
  ⟨fun y hy => hm.keptRow y (h.rows y (hm.rows ▸ hy)), hm.keptClear h.clearRequested⟩

/-! ### A new grid -/

/-- STEP: one cell of the comparison. -/
theorem updateCell_spec (newState : GridState) (y : ℕ) (f : TerminalFrame) (changed : Bool) (x : ℕ) :
    ∃ cells, updateCell newState y (f, changed) x =
      ({ f with cellCache := cells }, (updateCell newState y (f, changed) x).2) ∧
      cells.length = f.cellCache.length ∧
      (changed = true → (updateCell newState y (f, changed) x).2 = true) ∧
      ∀ i, cells[i]? ≠ f.cellCache[i]? →
        (updateCell newState y (f, changed) x).2 = true ∧ i = y * f.cols + x := by
  unfold updateCell
  dsimp only
  split
  · split
    · rename_i new _ _ _
      refine ⟨f.cellCache.set (y * f.cols + x) new, rfl, by simp, fun _ => rfl, fun i hi => ⟨rfl, ?_⟩⟩
      by_contra hne
      exact hi (List.getElem?_set_ne (Ne.symm hne))
    · exact ⟨f.cellCache, rfl, rfl, id, fun i hi => absurd rfl hi⟩
  · exact ⟨f.cellCache, rfl, rfl, id, fun i hi => absurd rfl hi⟩

/-- RUN: the cells of one row. -/
theorem updateCells_spec (newState : GridState) (y : ℕ) (xs : List ℕ) (f : TerminalFrame)
    (changed : Bool) :
    ∃ cells changed', xs.foldl (updateCell newState y) (f, changed) =
      ({ f with cellCache := cells }, changed') ∧ cells.length = f.cellCache.length ∧
      (changed = true → changed' = true) ∧
      ∀ i, cells[i]? ≠ f.cellCache[i]? → changed' = true ∧ ∃ x ∈ xs, i = y * f.cols + x := by
  induction xs generalizing f changed with
  | nil => exact ⟨f.cellCache, changed, rfl, rfl, id, fun i hi => absurd rfl hi⟩
  | cons x xs ih =>
    obtain ⟨cells₁, h₁, hlen₁, hch₁, hdiff₁⟩ := updateCell_spec newState y f changed x
    obtain ⟨cells₂, ch₂, h₂, hlen₂, hch₂, hdiff₂⟩ :=
      ih { f with cellCache := cells₁ } (updateCell newState y (f, changed) x).2
    refine ⟨cells₂, ch₂, ?_, hlen₂.trans hlen₁, fun h => hch₂ (hch₁ h), fun i hi => ?_⟩
    · rw [List.foldl_cons, h₁, h₂]
    · by_cases hfirst : cells₁[i]? = f.cellCache[i]?
      · obtain ⟨hc, x', hx', heq⟩ := hdiff₂ i (by rw [hfirst]; exact hi)
        exact ⟨hc, x', List.mem_cons_of_mem _ hx', heq⟩
      · obtain ⟨hc, heq⟩ := hdiff₁ i hfirst
        exact ⟨hch₂ hc, x, List.mem_cons_self .., heq⟩

/-- STEP: one row of the comparison marks itself if it changes. -/
theorem updateRow_marks (newState : GridState) {f : TerminalFrame} {y : ℕ} (hy : y < f.rowDirty.length) :
    ∃ f', updateRow newState f y = some f' ∧ Marks f f' := by
  obtain ⟨cells, changed, h, hlen, -, hdiff⟩ := updateCells_spec newState y (List.range f.cols) f false
  unfold updateRow
  rw [h]
  dsimp only
  cases changed with
  | true =>
    rw [if_pos rfl, if_pos hy]
    refine ⟨_, rfl, rfl, rfl, hlen, by simp, fun z hz => ?_, fun _ => rfl, id,
      fun x z hx hz hne => ?_, fun _ => rfl⟩
    · by_cases hzy : y = z
      · subst hzy
        exact List.getElem?_set_self hy
      · exact (List.getElem?_set_ne hzy).trans hz
    · obtain ⟨-, x', hx', heq⟩ := hdiff _ hne
      obtain ⟨-, rfl⟩ := GridState.coords_unique hx (List.mem_range.mp hx') heq
      exact ⟨List.getElem?_set_self hy, rfl⟩
  | false =>
    refine ⟨_, rfl, rfl, rfl, hlen, rfl, fun _ => id, id, id, fun x z hx hz hne => ?_,
      fun hne => absurd rfl hne⟩
    exact absurd (hdiff _ hne).1 (by simp)

/-- RUN: all rows. -/
theorem updateRows_marks (newState : GridState) (ys : List ℕ) {f : TerminalFrame}
    (hys : ∀ y ∈ ys, y < f.rowDirty.length) :
    ∃ f', ys.foldlM (updateRow newState) f = some f' ∧ Marks f f' := by
  induction ys generalizing f with
  | nil => exact ⟨f, rfl, .refl f⟩
  | cons y ys ih =>
    obtain ⟨f₁, h₁, hm₁⟩ := updateRow_marks newState (hys y (List.mem_cons_self ..))
    obtain ⟨f₂, h₂, hm₂⟩ := ih (f := f₁) fun z hz => by
      rw [hm₁.rowDirty]
      exact hys z (List.mem_cons_of_mem _ hz)
    refine ⟨f₂, ?_, hm₁.trans hm₂⟩
    rw [List.foldlM_cons, h₁]
    exact h₂

theorem resizedTo_same {f : TerminalFrame} {newState : GridState}
    (h : newState.cols = f.cols ∧ newState.rows = f.rows) : f.resizedTo newState = f := by
  rw [resizedTo, if_neg]
  simp [h]

theorem resizedTo_other {f : TerminalFrame} {newState : GridState}
    (h : ¬ (newState.cols = f.cols ∧ newState.rows = f.rows)) : f.resizedTo newState =
      { f with
        cols := newState.cols, rows := newState.rows
        cellCache := List.replicate (newState.cols * newState.rows) blankCell
        rowDirty := List.replicate newState.rows true, clearRequested := true } := by
  rw [resizedTo, if_pos]
  omega

/-- The size is the grid's; cursor, flag and labels are left alone. -/
theorem resizedTo_frame (f : TerminalFrame) (newState : GridState) :
    ∃ cellCache rowDirty clearRequested, f.resizedTo newState =
      { f with cols := newState.cols, rows := newState.rows, cellCache, rowDirty, clearRequested } := by
  by_cases hsize : newState.cols = f.cols ∧ newState.rows = f.rows
  · refine ⟨f.cellCache, f.rowDirty, f.clearRequested, ?_⟩
    rw [resizedTo_same hsize, hsize.1, hsize.2]
  · exact ⟨_, _, _, resizedTo_other hsize⟩

/-- The cursor is the grid's, and the flag tells whether it moved. -/
theorem updateCursor_frame (f : TerminalFrame) (newState : GridState) :
    ∃ dirty, f.updateCursor newState = { f with
        cursorX := newState.cursorX, cursorY := newState.cursorY
        cursorVisible := newState.cursorVisible, dirty } ∧
      (dirty = true ↔ f.dirty = true ∨
        (f.cursor, f.cursorVisible) ≠ ((newState.cursorX, newState.cursorY), newState.cursorVisible)) := by
  unfold updateCursor
  split
  · rename_i hmoved
    refine ⟨true, rfl, iff_of_true rfl (.inr fun heq => ?_)⟩
    simp only [cursor, Prod.mk.injEq] at heq
    simp [heq] at hmoved
  · rename_i hkept
    simp only [not_or, not_not] at hkept
    obtain ⟨hx, hy, hv⟩ := hkept
    refine ⟨f.dirty, by rw [← hx, ← hy, ← hv], ?_⟩
    simp [cursor, hx, hy, hv]

theorem updateCursor_marks (f : TerminalFrame) (newState : GridState) :
    Marks f (f.updateCursor newState) := by
  obtain ⟨d, heq, hd⟩ := updateCursor_frame f newState
  rw [heq]
  refine ⟨rfl, rfl, rfl, rfl, fun _ => id, fun hf => ?_, id, fun _ _ _ _ h => absurd rfl h, fun hne => ?_⟩
  · rw [flagged, Bool.or_eq_true] at hf ⊢
    exact hf.imp_left fun hdirty => hd.mpr (.inl hdirty)
  · rw [flagged, hd.mpr (.inr (Ne.symm hne)), Bool.true_or]

theorem resizedTo_spec {f : TerminalFrame} (hf : f.Sized) (newState : GridState) :
    (f.resizedTo newState).Sized ∧ (f.resizedTo newState).rows = newState.rows ∧
      ((f.resizedTo newState) = f ∨ Cleared (f.resizedTo newState)) := by
  by_cases hsize : newState.cols = f.cols ∧ newState.rows = f.rows
  · rw [resizedTo_same hsize]
    exact ⟨hf, hsize.2.symm, .inl rfl⟩
  · rw [resizedTo_other hsize]
    refine ⟨⟨by simp, by simp⟩, rfl, .inr ⟨fun y hy => ?_, rfl⟩⟩
    show (List.replicate newState.rows true)[y]? = some true
    rw [List.getElem?_replicate, if_pos hy]

/-- `update_from_grid_state` never panics, and marks what it changes on the screen of the grid's size. -/
theorem updateFromGridState_marks {f : TerminalFrame} (hf : f.Sized) (newState : GridState) :
    ∃ f', f.updateFromGridState newState = some f' ∧ Marks (f.resizedTo newState) f' := by
  obtain ⟨hsized, hrows, -⟩ := resizedTo_spec hf newState
  obtain ⟨f', h, hm⟩ := updateRows_marks newState (List.range newState.rows) (f := f.resizedTo newState)
    fun y hy => by
      rw [hsized.rowDirty, hrows]
      exact List.mem_range.mp hy
  refine ⟨f'.updateCursor newState, ?_, hm.trans (updateCursor_marks f' newState)⟩
  rw [updateFromGridState, h]
  rfl

/-- It marks what it changes, or starts a new screen. -/
theorem updateFromGridState_spec {f : TerminalFrame} (hf : f.Sized) (newState : GridState) :
    ∃ f', f.updateFromGridState newState = some f' ∧ f'.Sized ∧ (Marks f f' ∨ Cleared f') := by
  obtain ⟨hsized, -, hcase⟩ := resizedTo_spec hf newState
  obtain ⟨f', h, hm⟩ := updateFromGridState_marks hf newState
  refine ⟨f', h, hm.sized hsized, ?_⟩
  rcases hcase with heq | hc
  · rw [heq] at hm
    exact .inl hm
  · exact .inr (hc.marks hm)

/-! ### What an update can change -/

/-- The comparison with a grid changes cells, marks and the flag, and takes its cells from the grid. -/
structure Updates (newState : GridState) (f f' : TerminalFrame) : Prop where
  shape : f' = { f with cellCache := f'.cellCache, rowDirty := f'.rowDirty, dirty := f'.dirty }
  keptFlag : f.dirty = true → f'.dirty = true
  cells : ∀ c ∈ f'.cellCache, c ∈ f.cellCache ∨ c ∈ newState.cells

theorem Updates.refl (newState : GridState) (f : TerminalFrame) : Updates newState f f :=
  ⟨rfl, id, fun _ => .inl⟩

theorem Updates.trans {newState : GridState} {f g h : TerminalFrame} (hfg : Updates newState f g)
    (hgh : Updates newState g h) : Updates newState f h := by
  refine ⟨?_, fun hd => hgh.keptFlag (hfg.keptFlag hd), fun c hc => ?_⟩
  · have h₁ := hfg.shape
    have h₂ := hgh.shape
    rw [h₁] at h₂
    exact h₂
  · rcases hgh.cells c hc with hc | hc
    · exact hfg.cells c hc
    · exact .inr hc

/-- A cell of the grid is the one shown, or outside one of the buffers. -/
def CellAgrees (newState : GridState) (f : TerminalFrame) (y x : ℕ) : Prop :=
  ∀ old new, f.cellCache[y * f.cols + x]? = some old → newState.cells[y * f.cols + x]? = some new →
    old = new

/-- STEP: a cell that agrees is left, one that does not sets the flag. -/
theorem updateCell_agrees (newState : GridState) (y : ℕ) (f : TerminalFrame) (changed : Bool) (x : ℕ) :
    (CellAgrees newState f y x → updateCell newState y (f, changed) x = (f, changed)) ∧
    (¬ CellAgrees newState f y x → (updateCell newState y (f, changed) x).2 = true) ∧
    ∀ c ∈ (updateCell newState y (f, changed) x).1.cellCache, c ∈ f.cellCache ∨ c ∈ newState.cells := by
  unfold updateCell CellAgrees
  dsimp only
  split
  · rename_i old new hold hnew
    split
    · rename_i hne
      refine ⟨fun h => absurd (h old new hold hnew) hne, fun _ => rfl, fun c hc => ?_⟩
      rcases List.mem_or_eq_of_mem_set hc with hc | rfl
      · exact .inl hc
      · exact .inr (List.mem_of_getElem? hnew)
    · rename_i heq
      refine ⟨fun _ => rfl, fun h => absurd (fun old' new' hold' hnew' => ?_) h, fun _ => .inl⟩
      rw [← Option.some.inj (hold.symm.trans hold'), ← Option.some.inj (hnew.symm.trans hnew')]
      exact not_not.mp heq
  · rename_i hnone
    exact ⟨fun _ => rfl, fun h => absurd (fun old new hold hnew => (hnone old new hold hnew).elim) h,
      fun _ => .inl⟩

/-- RUN: the cells of one row. -/
theorem updateCells_agrees (newState : GridState) (y : ℕ) (xs : List ℕ) : ∀ (f : TerminalFrame),
    ((∀ x ∈ xs, CellAgrees newState f y x) → xs.foldl (updateCell newState y) (f, false) = (f, false)) ∧
    (¬ (∀ x ∈ xs, CellAgrees newState f y x) →
      (xs.foldl (updateCell newState y) (f, false)).2 = true) := by
  induction xs with
  | nil => exact fun f => ⟨fun _ => rfl, fun h => absurd (fun x hx => nomatch hx) h⟩
  | cons x xs ih =>
    intro f
    obtain ⟨hsame, hdiff, -⟩ := updateCell_agrees newState y f false x
    rw [List.forall_mem_cons, List.foldl_cons]
    by_cases hx : CellAgrees newState f y x
    · rw [hsame hx]
      exact ⟨fun h => (ih f).1 h.2, fun h => (ih f).2 fun hxs => h ⟨hx, hxs⟩⟩
    · refine ⟨fun h => absurd h.1 hx, fun _ => ?_⟩
      obtain ⟨cells, changed, h, -, hkept, -⟩ := updateCells_spec newState y xs
        (updateCell newState y (f, false) x).1 (updateCell newState y (f, false) x).2
      rw [h]
      exact hkept (hdiff hx)

theorem updateCells_mem (newState : GridState) (y : ℕ) (xs : List ℕ) :
    ∀ (f : TerminalFrame) (changed : Bool),
      ∀ c ∈ (xs.foldl (updateCell newState y) (f, changed)).1.cellCache,
        c ∈ f.cellCache ∨ c ∈ newState.cells := by
  induction xs with
  | nil => exact fun f changed c hc => .inl hc
  | cons x xs ih =>
    intro f changed c hc
    rcases ih _ _ c hc with hc | hc
    · exact (updateCell_agrees newState y f changed x).2.2 c hc
    · exact .inr hc

/-- STEP: a row that agrees is left, one that does not raises the flag. -/
theorem updateRow_updates {newState : GridState} {f f' : TerminalFrame} {y : ℕ}
    (h : updateRow newState f y = some f') : Updates newState f f' ∧
      ((∀ x < f.cols, CellAgrees newState f y x) → f' = f) ∧
      (¬ (∀ x < f.cols, CellAgrees newState f y x) → f'.dirty = true) := by
  obtain ⟨cells, changed, hfold, -⟩ := updateCells_spec newState y (List.range f.cols) f false
  have hmem := updateCells_mem newState y (List.range f.cols) f false
  have hagrees := updateCells_agrees newState y (List.range f.cols) f
  simp only [List.mem_range] at hagrees
  rw [hfold] at hmem hagrees
  unfold updateRow at h
  rw [hfold] at h
  dsimp only at h
  cases changed with
  | true =>
    rw [if_pos rfl] at h
    split at h
    · cases h
      refine ⟨⟨rfl, fun _ => rfl, hmem⟩, fun hall => ?_, fun _ => rfl⟩
      exact absurd (show true = false from congrArg Prod.snd (hagrees.1 hall)) Bool.false_ne_true.symm
    · cases h
  | false =>
    obtain rfl := Option.some.inj h
    exact ⟨⟨rfl, id, hmem⟩, fun hall => congrArg Prod.fst (hagrees.1 hall),
      fun hno => nomatch hagrees.2 hno⟩

/-- RUN: all rows. -/
theorem updateRows_updates {newState : GridState} (ys : List ℕ) : ∀ {f f' : TerminalFrame},
    ys.foldlM (updateRow newState) f = some f' → Updates newState f f' ∧
      ((∀ y ∈ ys, ∀ x < f.cols, CellAgrees newState f y x) → f' = f) ∧
      (¬ (∀ y ∈ ys, ∀ x < f.cols, CellAgrees newState f y x) → f'.dirty = true) := by
  induction ys with
  | nil =>
    intro f f' h
    cases h
    exact ⟨.refl _ _, fun _ => rfl, fun h => absurd (fun y hy => nomatch hy) h⟩
  | cons y ys ih =>
    intro f f' h
    obtain ⟨f₁, h₁, h⟩ := Option.bind_eq_some_iff.mp h
    obtain ⟨hrow, hsame, hdiff⟩ := updateRow_updates h₁
    obtain ⟨hrest, hsames, hdiffs⟩ := ih h
    refine ⟨hrow.trans hrest, ?_⟩
    rw [List.forall_mem_cons]
    by_cases hy : ∀ x < f.cols, CellAgrees newState f y x
    · obtain rfl := hsame hy
      exact ⟨fun hall => hsames hall.2, fun hno => hdiffs fun hys => hno ⟨hy, hys⟩⟩
    · exact ⟨fun hall => absurd hall.1 hy, fun _ => hrest.keptFlag (hdiff hy)⟩

/-- The grid shows what the frame, started over if it has another size, shows already. -/
def Agrees (f : TerminalFrame) (newState : GridState) : Prop :=
  (∀ y < newState.rows, ∀ x < (f.resizedTo newState).cols,
    CellAgrees newState (f.resizedTo newState) y x) ∧
  (f.cursor, f.cursorVisible) = ((newState.cursorX, newState.cursorY), newState.cursorVisible)

/-- UPDATE: a grid that agrees changes nothing else; another one raises the flag. -/
theorem updateFromGridState_updates {f f' : TerminalFrame} {newState : GridState}
    (h : f.updateFromGridState newState = some f') :
    (∃ f₁, Updates newState (f.resizedTo newState) f₁ ∧ f' = f₁.updateCursor newState) ∧
      (f.Agrees newState → f' = f.resizedTo newState) ∧ (¬ f.Agrees newState → f'.dirty = true) := by
  obtain ⟨f₁, h₁, rfl⟩ := Option.map_eq_some_iff.mp h
  obtain ⟨hupd, hsame, hdiff⟩ := updateRows_updates _ h₁
  simp only [List.mem_range] at hsame hdiff
  have hcursor₁ : (f₁.cursor, f₁.cursorVisible) = (f.cursor, f.cursorVisible) := by
    obtain ⟨_, _, _, hframe⟩ := resizedTo_frame f newState
    rw [hupd.shape, hframe]
    rfl
  refine ⟨⟨f₁, hupd, rfl⟩, fun ha => ?_, fun hno => ?_⟩
  · have hkeep : f₁.updateCursor newState = f₁ := by
      have hsame := hcursor₁.trans ha.2
      simp only [cursor, Prod.mk.injEq] at hsame
      rw [updateCursor, if_neg]
      simp [hsame]
    rw [hkeep]
    exact hsame ha.1
  · obtain ⟨d, heq, hd⟩ := updateCursor_frame f₁ newState
    rw [heq]
    refine hd.mpr (or_iff_not_imp_right.mpr fun hkeep => hdiff fun hcells => hno ⟨hcells, ?_⟩)
    exact hcursor₁.symm.trans (not_not.mp hkeep)

/-- STEP: a new grid brings only its own cells and blank ones. -/
theorem updateFromGridState_cells {P : LocalCellData → Prop} {f f' : TerminalFrame} {newState : GridState}
    (h : f.updateFromGridState newState = some f') (hblank : P blankCell) (hf : ∀ c ∈ f.cellCache, P c)
    (hg : ∀ c ∈ newState.cells, P c) : ∀ c ∈ f'.cellCache, P c := by
  obtain ⟨⟨f₁, hupd, rfl⟩, -⟩ := updateFromGridState_updates h
  obtain ⟨_, heq, -⟩ := updateCursor_frame f₁ newState
  rw [heq]
  intro c hc
  rcases hupd.cells c hc with hc | hc
  · by_cases hsize : newState.cols = f.cols ∧ newState.rows = f.rows
    · rw [resizedTo_same hsize] at hc
      exact hf c hc
    · rw [resizedTo_other hsize] at hc
      rw [List.eq_of_mem_replicate hc]
      exact hblank
  · exact hg c hc

end TerminalFrame

/-! ### The operations -/

/-- What can be asked of the mirror. -/
inductive MirrorOp where
  | predictInput (bytes : Bytes) (clientSeq : ℕ)
  | acknowledge (serverAckSeq : ℕ)
  | applyFrame (newState : GridState) (serverSeq : ℕ)
  | abortPrediction
  | setReconnecting (reconnecting : Bool)
  | toggleOverlay
  | markDirty
  | recordRttLoss (rttMs : Option ℕ) (lossPct : Option Float32)
  | recordBandwidthCompression (kbS ratio : Float32)
  | recordFps (fps : ℕ)
  | consumeUpdates

namespace MirrorOp

/-- The operations that leave the screen and the pending batches alone. -/
def isQuiet : MirrorOp → Bool
  | .predictInput _ _ | .acknowledge _ | .applyFrame _ _ | .abortPrediction => false
  | _ => true

end MirrorOp

namespace ClientTerminal
open TerminalFrame LocalEchoEngine

def perform (t : ClientTerminal) : MirrorOp → Option ClientTerminal
  | .predictInput bytes clientSeq => t.predictInput bytes clientSeq
  | .acknowledge serverAckSeq => t.acknowledge serverAckSeq
  | .applyFrame newState serverSeq => t.applyFrame newState serverSeq
  | .abortPrediction => t.abortPrediction
  | .setReconnecting reconnecting => t.setReconnecting reconnecting
  | .toggleOverlay => some t.toggleOverlay
  | .markDirty => some t.markDirty
  | .recordRttLoss rttMs lossPct => some (t.recordRttLoss rttMs lossPct)
  | .recordBandwidthCompression kbS ratio => some (t.recordBandwidthCompression kbS ratio)
  | .recordFps fps => some (t.recordFps fps)
  | .consumeUpdates => some (t.consumeUpdates t.frame).1

/-- The two mirrors show the same and have the same batches pending. -/
structure SameScreen (t t' : ClientTerminal) : Prop where
  echoEngine : t'.echoEngine = t.echoEngine
  cols : t'.frame.cols = t.frame.cols
  rows : t'.frame.rows = t.frame.rows
  cellCache : t'.frame.cellCache = t.frame.cellCache
  cursor : t'.frame.cursor = t.frame.cursor
  rowDirty : t'.frame.rowDirty.length = t.frame.rowDirty.length

theorem SameScreen.refl (t : ClientTerminal) : SameScreen t t := ⟨rfl, rfl, rfl, rfl, rfl, rfl⟩

theorem SameScreen.trans {t t' t'' : ClientTerminal} (h : SameScreen t t') (h' : SameScreen t' t'') :
    SameScreen t t'' :=
  ⟨h'.1.trans h.1, h'.2.trans h.2, h'.3.trans h.3, h'.4.trans h.4, h'.5.trans h.5, h'.6.trans h.6⟩

theorem SameScreen.sized {t t' : ClientTerminal} (h : SameScreen t t') (ht : t.frame.Sized) :
    t'.frame.Sized :=
  ⟨by rw [h.cellCache, h.cols, h.rows, ht.cells], by rw [h.rowDirty, h.rows, ht.rowDirty]⟩

/-- Nothing is done when the banner is as it should be. -/
theorem setReconnecting_same {t : ClientTerminal} {reconnecting : Bool}
    (h : t.frame.reconnecting = reconnecting) : t.setReconnecting reconnecting = some t := by
  rw [setReconnecting, if_neg (not_not.mpr h)]

theorem setReconnecting_on {t : ClientTerminal} (h : t.frame.reconnecting = false) :
    t.setReconnecting true =
      some { t with frame := { t.frame with reconnecting := true, dirty := true } } := by
  rw [setReconnecting, if_pos (by simp [h])]
  rfl

theorem setReconnecting_off {t : ClientTerminal} (h : t.frame.reconnecting = true) :
    t.setReconnecting false =
      if t.frame.rows - 1 < t.frame.rowDirty.length then
        some { t with frame := { t.frame with
          reconnecting := false, dirty := true, rowDirty := t.frame.rowDirty.set (t.frame.rows - 1) true } }
      else none := by
  rw [setReconnecting, if_pos (by simp [h])]
  rfl

/-- The call panics only where there is no row to mark. -/
theorem setReconnecting_eq_none_iff {t : ClientTerminal} {reconnecting : Bool} :
    t.setReconnecting reconnecting = none ↔
      reconnecting = false ∧ t.frame.reconnecting = true ∧ t.frame.rowDirty.length ≤ t.frame.rows - 1 := by
  by_cases hsame : t.frame.reconnecting = reconnecting
  · rw [setReconnecting_same hsame, hsame]
    refine iff_of_false nofun fun h => ?_
    exact absurd (h.1.symm.trans h.2.1) Bool.false_ne_true
  cases reconnecting with
  | true =>
    rw [setReconnecting_on (by simpa using hsame)]
    exact iff_of_false nofun fun h => absurd h.1 Bool.false_ne_true.symm
  | false =>
    have hr : t.frame.reconnecting = true := by simpa using hsame
    rw [setReconnecting_off hr, ite_eq_right_iff]
    simp [hr]

/-- What the call can do: nothing, put the banner on, or take it away and mark its row. -/
theorem setReconnecting_cases {t t' : ClientTerminal} {reconnecting : Bool}
    (h : t.setReconnecting reconnecting = some t') :
    t' = t ∨ t' = { t with frame := { t.frame with reconnecting := true, dirty := true } } ∨
    t.frame.rows - 1 < t.frame.rowDirty.length ∧
      t' = { t with frame := { t.frame with
        reconnecting := false, dirty := true
        rowDirty := t.frame.rowDirty.set (t.frame.rows - 1) true } } := by
  by_cases hsame : t.frame.reconnecting = reconnecting
  · rw [setReconnecting_same hsame] at h
    exact .inl (Option.some.inj h).symm
  cases reconnecting with
  | true =>
    rw [setReconnecting_on (by simpa using hsame)] at h
    exact .inr (.inl (Option.some.inj h).symm)
  | false =>
    rw [setReconnecting_off (by simpa using hsame)] at h
    split at h
    · rename_i hrow
      exact .inr (.inr ⟨hrow, (Option.some.inj h).symm⟩)
    · cases h

theorem setReconnecting_sameScreen {t t' : ClientTerminal} {reconnecting : Bool}
    (h : t.setReconnecting reconnecting = some t') : SameScreen t t' := by
  obtain rfl | rfl | ⟨-, rfl⟩ := setReconnecting_cases h
  · exact .refl _
  · exact ⟨rfl, rfl, rfl, rfl, rfl, rfl⟩
  · exact ⟨rfl, rfl, rfl, rfl, rfl, List.length_set⟩

theorem consumeUpdates_sameScreen (t : ClientTerminal) (dest : TerminalFrame) :
    SameScreen t (t.consumeUpdates dest).1 := by
  unfold consumeUpdates
  split
  · exact ⟨rfl, rfl, rfl, rfl, rfl, List.length_map _⟩
  · exact .refl t

/-- Telemetry, flags and the banner leave the screen alone. -/
theorem perform_sameScreen {t t' : ClientTerminal} {op : MirrorOp} (hop : op.isQuiet = true)
    (h : t.perform op = some t') : SameScreen t t' := by
  cases op with
  | predictInput bytes clientSeq => cases hop
  | acknowledge serverAckSeq => cases hop
  | applyFrame newState serverSeq => cases hop
  | abortPrediction => cases hop
  | setReconnecting reconnecting => exact setReconnecting_sameScreen h
  | consumeUpdates => cases h; exact consumeUpdates_sameScreen t t.frame
  | toggleOverlay => cases h; exact ⟨rfl, rfl, rfl, rfl, rfl, rfl⟩
  | markDirty => cases h; exact ⟨rfl, rfl, rfl, rfl, rfl, rfl⟩
  | recordRttLoss rttMs lossPct => cases h; exact ⟨rfl, rfl, rfl, rfl, rfl, rfl⟩
  | recordBandwidthCompression kbS ratio => cases h; exact ⟨rfl, rfl, rfl, rfl, rfl, rfl⟩
  | recordFps fps => cases h; exact ⟨rfl, rfl, rfl, rfl, rfl, rfl⟩

variable {t t' : ClientTerminal}

/-- A batch is drawn and pending. -/
theorem predictInput_eq (ht : t.frame.Sized) (bytes : Bytes) (clientSeq : ℕ) :
    ∃ oldCells, t.predictInput bytes clientSeq = some
      { frame := t.frame.paint (strokes t.frame.cols t.frame.rows t.frame.cursor bytes)
          (penAfter t.frame.cols t.frame.rows t.frame.cursor bytes),
        echoEngine := { t.echoEngine with unconfirmedInputs := t.echoEngine.unconfirmedInputs ++
          [{ seqNum := clientSeq, bytes, epoch := t.echoEngine.currentEpoch,
             oldCursorX := t.frame.cursorX, oldCursorY := t.frame.cursorY, oldCells }] } } := by
  obtain ⟨old, h⟩ := applyKeystrokes_eq t.echoEngine ht bytes clientSeq
  exact ⟨old, by rw [predictInput, h]; rfl⟩

/-- An acknowledgement draws the surviving batches once more on the screen as it is. -/
theorem acknowledge_eq (ht : t.frame.Sized) (ack : ℕ) :
    ∃ e', t.acknowledge ack = some
      { frame := t.frame.paint
          (strokes t.frame.cols t.frame.rows t.frame.cursor
            (textOf ((t.echoEngine.surviving ack).map keyOf)))
          (penAfter t.frame.cols t.frame.rows t.frame.cursor
            (textOf ((t.echoEngine.surviving ack).map keyOf))),
        echoEngine := e' } ∧
      e'.currentEpoch = t.echoEngine.currentEpoch ∧
      e'.keys = (t.echoEngine.surviving ack).map keyOf ∧
      ∀ p ∈ e'.unconfirmedInputs, p.epoch = e'.currentEpoch := by
  obtain ⟨e', h, hrest⟩ := reconcileFrame_eq t.echoEngine ht ack
  exact ⟨e', by rw [acknowledge, h]; rfl, hrest⟩

/-- A frame goes on the screen, and the batches that survive its number are drawn on top. -/
theorem applyFrame_eq (ht : t.frame.Sized) (newState : GridState) (serverSeq : ℕ) :
    ∃ f e', t.frame.updateFromGridState newState = some f ∧ f.Sized ∧
      (Marks t.frame f ∨ Cleared f) ∧
      t.applyFrame newState serverSeq = some
        { frame := { f with lastSeq := serverSeq }.paint
            (strokes f.cols f.rows f.cursor (textOf ((t.echoEngine.surviving serverSeq).map keyOf)))
            (penAfter f.cols f.rows f.cursor (textOf ((t.echoEngine.surviving serverSeq).map keyOf))),
          echoEngine := e' } ∧
      e'.currentEpoch = t.echoEngine.currentEpoch ∧
      e'.keys = (t.echoEngine.surviving serverSeq).map keyOf ∧
      ∀ p ∈ e'.unconfirmedInputs, p.epoch = e'.currentEpoch := by
  obtain ⟨f, hf, hsized, hmarks⟩ := updateFromGridState_spec ht newState
  have hsized' : ({ f with lastSeq := serverSeq } : TerminalFrame).Sized := ⟨hsized.cells, hsized.rowDirty⟩
  obtain ⟨e', h, hrest⟩ := reconcileFrame_eq t.echoEngine hsized' serverSeq
  refine ⟨f, e', hf, hsized, hmarks, ?_, hrest⟩
  rw [applyFrame, hf, Option.bind_some, h]
  rfl

/-- The batches are taken back, and none is pending. -/
theorem abortPrediction_eq (ht : t.frame.Sized) :
    t.abortPrediction = some
      { frame := t.frame.paint
          (t.echoEngine.unconfirmedInputs.reverse.flatMap (restores t.frame.cols t.frame.rows))
          (cursorBack t.frame.cursor t.echoEngine.unconfirmedInputs.reverse),
        echoEngine := { unconfirmedInputs := [], currentEpoch := t.echoEngine.currentEpoch + 1 } } := by
  rw [abortPrediction, abort_eq _ ht]
  rfl

/-- STEP: every operation keeps the buffers at the size of the screen. -/
theorem perform_sized {op : MirrorOp} (ht : t.frame.Sized) (h : t.perform op = some t') :
    t'.frame.Sized := by
  by_cases hop : op.isQuiet = true
  · exact (perform_sameScreen hop h).sized ht
  · cases op with
    | predictInput bytes clientSeq =>
      obtain ⟨old, heq⟩ := predictInput_eq ht bytes clientSeq
      obtain rfl := Option.some.inj (heq.symm.trans h)
      exact ht.paint _ _
    | acknowledge ack =>
      obtain ⟨e', heq, -⟩ := acknowledge_eq ht ack
      obtain rfl := Option.some.inj (heq.symm.trans h)
      exact ht.paint _ _
    | applyFrame newState serverSeq =>
      obtain ⟨f, e', -, hf, -, heq, -⟩ := applyFrame_eq ht newState serverSeq
      obtain rfl := Option.some.inj (heq.symm.trans h)
      exact Sized.paint (f := { f with lastSeq := serverSeq }) ⟨hf.cells, hf.rowDirty⟩ _ _
    | abortPrediction =>
      obtain rfl := Option.some.inj ((abortPrediction_eq ht).symm.trans h)
      exact ht.paint _ _
    | _ => exact absurd rfl hop

end ClientTerminal

end Rumsh.Client
