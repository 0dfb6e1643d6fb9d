import Rumsh.Client.Predictions

/-! Taking back is exact.

    A batch remembers the first content of every cell it draws on, so putting the remembered cells back
    gives the screen the batch was drawn on, however often it went over a cell. Batches are taken back
    in reverse order; `Beneath base e f` is the invariant between two takings back: undoing what is
    pending in `e` turns the screen `f` into `base`. -/

namespace Rumsh.Client
open Rumsh.Schemes Rumsh.Protocol

namespace LocalEchoEngine
open TerminalFrame

/-! ### One batch -/

/-- What a batch remembers is what `base` shows there, and elsewhere nothing was drawn. -/
structure Remembers (base : TerminalFrame) (d : Drawing) : Prop where
  cols : d.1.cols = base.cols
  rows : d.1.rows = base.rows
  cells : d.1.cellCache.length = base.cellCache.length
  held : ∀ o ∈ d.2, o.1 < base.cols ∧ o.2.1 < base.rows ∧
    base.cellCache[o.2.1 * base.cols + o.1]? = some o.2.2
  rest : ∀ i, (∀ o ∈ d.2, o.2.1 * base.cols + o.1 ≠ i) → d.1.cellCache[i]? = base.cellCache[i]?

theorem remembers_start (base : TerminalFrame) : Remembers base (base, []) :=
  ⟨rfl, rfl, rfl, by simp, fun _ _ => rfl⟩

variable {base f : TerminalFrame} {old : List (ℕ × ℕ × LocalCellData)} {d d' : Drawing}

/-- STEP: a drawn cell is remembered, unless it was drawn on before. -/
theorem Remembers.drawCell (h : Remembers base d) {x y : ℕ} (hx : x < d.1.cols) (hy : y < d.1.rows)
    {cell : LocalCellData} (hd : drawCell d x y cell = some d') : Remembers base d' := by
  obtain ⟨f, old⟩ := d
  have hx' : x < base.cols := h.cols ▸ hx
  have hy' : y < base.rows := h.rows ▸ hy
  have hidx : y * f.cols + x = y * base.cols + x := congrArg (y * · + x) h.cols
  simp only [LocalEchoEngine.drawCell] at hd
  split at hd
  · cases hd
  · rename_i was hwas
    cases hd
    have hlen : (f.cellCache.set (y * f.cols + x) cell).length = base.cellCache.length := by
      simpa using h.cells
    have hrest : ∀ i, i ≠ y * base.cols + x → (∀ o ∈ old, o.2.1 * base.cols + o.1 ≠ i) →
        (f.cellCache.set (y * f.cols + x) cell)[i]? = base.cellCache[i]? := fun i hi ho =>
      (List.getElem?_set_ne (hidx.trans_ne (Ne.symm hi))).trans (h.rest i ho)
    rw [hidx] at hwas
    split
    · -- the cell was covered before, by this very batch
      rename_i hany
      refine ⟨h.cols, h.rows, hlen, h.held, fun i ho => hrest i (fun heq => ?_) ho⟩
      obtain ⟨o, hmem, heqo⟩ := List.any_eq_true.mp hany
      simp only [Bool.and_eq_true, beq_iff_eq] at heqo
      exact ho o hmem (by rw [heqo.1, heqo.2, heq])
    · rename_i hany
      have hnew : ∀ o ∈ old, o.2.1 * base.cols + o.1 ≠ y * base.cols + x := by
        intro o hmem heq
        obtain ⟨h₁, h₂⟩ := GridState.coords_unique (h.held o hmem).1 hx' heq
        exact hany (List.any_eq_true.mpr ⟨o, hmem, by simp [h₁, h₂]⟩)
      refine ⟨h.cols, h.rows, hlen, fun o ho => ?_, fun i ho => ?_⟩
      · rcases List.mem_append.mp ho with ho | ho
        · exact h.held o ho
        · rw [List.mem_singleton.mp ho]
          exact ⟨hx', hy', (h.rest _ hnew).symm.trans hwas⟩
      · refine hrest i (fun heq => ?_) fun o hmem => ho o (List.mem_append_left _ hmem)
        exact ho (x, y, was) (List.mem_append_right _ (List.mem_singleton.mpr rfl)) heq.symm

/-- STEP: a byte of a batch. Only the cell it draws matters, not where the cursor goes. -/
theorem Remembers.drawByte (h : Remembers base d) {b : UInt8} (hd : drawByte d b = some d') :
    Remembers base d' := by
  obtain ⟨f, old⟩ := d
  have hsame : ∀ cx cy, Remembers base ({ f with cursorX := cx, cursorY := cy }, old) := fun cx cy =>
    ⟨h.cols, h.rows, h.cells, h.held, h.rest⟩
  unfold LocalEchoEngine.drawByte at hd
  dsimp only at hd
  split at hd
  · cases hd
    exact hsame 0 f.cursorY
  split at hd
  · cases hd
    exact hsame 0 (nextLine f)
  split at hd
  · split at hd
    · split at hd
      · rename_i hin
        exact (hsame (f.cursorX - 1) f.cursorY).drawCell hin.1 hin.2 hd
      · cases hd
        exact hsame (f.cursorX - 1) f.cursorY
    · cases hd
      exact h
  split at hd
  · split at hd
    · rename_i hin
      obtain ⟨⟨f', old'⟩, hcell, hd⟩ := Option.map_eq_some_iff.mp hd
      have h' := h.drawCell hin.1 hin.2 hcell
      split at hd
      · cases hd
        exact ⟨h'.cols, h'.rows, h'.cells, h'.held, h'.rest⟩
      · cases hd
        exact ⟨h'.cols, h'.rows, h'.cells, h'.held, h'.rest⟩
    · cases hd
      exact h
  · cases hd
    exact h

/-- RUN: a whole batch. -/
theorem Remembers.drawBytes {bytes : Bytes} (h : Remembers base d)
    (hd : bytes.foldlM LocalEchoEngine.drawByte d = some d') : Remembers base d' := by
  induction bytes generalizing d with
  | nil =>
    cases hd
    exact h
  | cons b bytes ih =>
    obtain ⟨d₁, h₁, hd⟩ := Option.bind_eq_some_iff.mp hd
    exact ih (h.drawByte h₁) hd

/-- Putting back what a batch remembers gives the cells it was drawn on. -/
theorem Remembers.restores (h : Remembers base (f, old)) (entry : PredictionEntry)
    (hold : entry.oldCells = old) :
    overwrite f.cellCache (writesOf f.cols (LocalEchoEngine.restores f.cols f.rows entry)) =
      base.cellCache := by
  have hmem : ∀ u, u ∈ writesOf f.cols (LocalEchoEngine.restores f.cols f.rows entry) ↔
      ∃ o ∈ old, u = (o.2.1 * base.cols + o.1, o.2.2) := by
    intro u
    simp only [writesOf, LocalEchoEngine.restores, hold, List.mem_map, List.mem_filter,
      List.mem_reverse, decide_eq_true_eq]
    constructor
    · rintro ⟨_, ⟨o, ⟨ho, -⟩, rfl⟩, rfl⟩
      exact ⟨o, ho, by rw [h.cols]⟩
    · rintro ⟨o, ho, rfl⟩
      obtain ⟨hx, hy, -⟩ := h.held o ho
      exact ⟨_, ⟨o, ⟨ho, h.cols.symm ▸ hx, h.rows.symm ▸ hy⟩, rfl⟩, by rw [h.cols]⟩
  refine overwrite_eq_target h.cells (fun u hu => ?_) fun i hi => h.rest i fun o ho => ?_
  · obtain ⟨o, ho, rfl⟩ := (hmem u).mp hu
    exact (h.held o ho).2.2
  · exact hi _ ((hmem _).mpr ⟨o, ho, rfl⟩)

/-! ### All that is pending -/

/-- Taking back what is pending in `e` turns the screen `f` into `base`. -/
structure Beneath (base : TerminalFrame) (e : LocalEchoEngine) (f : TerminalFrame) : Prop where
  cols : f.cols = base.cols
  rows : f.rows = base.rows
  sized : f.Sized
  cells : overwrite f.cellCache
    (writesOf f.cols (e.unconfirmedInputs.reverse.flatMap (LocalEchoEngine.restores f.cols f.rows))) =
      base.cellCache
  cursor : cursorBack f.cursor e.unconfirmedInputs.reverse = base.cursor

theorem beneath_start (hf : f.Sized) {e : LocalEchoEngine} (he : e.unconfirmedInputs = []) :
    Beneath f e f := by
  refine ⟨rfl, rfl, hf, ?_, ?_⟩
  · rw [he]
    rfl
  · rw [he]
    rfl

variable {e e' : LocalEchoEngine} {f' : TerminalFrame}

/-- STEP: a batch is drawn and remembered on top of what is pending. -/
theorem Beneath.applyKeystrokes (h : Beneath base e f) {bytes : Bytes} {seqNum : ℕ}
    (ha : e.applyKeystrokes f bytes seqNum = some (e', f')) : Beneath base e' f' := by
  obtain ⟨⟨f₁, old⟩, hdraw, heq⟩ := Option.map_eq_some_iff.mp ha
  obtain ⟨rfl, rfl⟩ := Prod.mk.inj heq
  have hr : Remembers f (f₁, old) := (remembers_start f).drawBytes hdraw
  have hsized : f₁.Sized := by
    obtain ⟨old', hpaint⟩ := drawBytes_eq bytes h.sized []
    rw [hpaint] at hdraw
    cases hdraw
    exact h.sized.paint _ _
  have hcols : f₁.cols = f.cols := hr.cols
  have hrows : f₁.rows = f.rows := hr.rows
  refine ⟨hcols.trans h.cols, hrows.trans h.rows, hsized, ?_, ?_⟩
  · -- the new batch goes first, and leaves the screen it was drawn on
    rw [List.reverse_append, List.reverse_singleton, List.singleton_append, List.flatMap_cons, writesOf,
      List.map_append, overwrite_append]
    have hback := hr.restores ⟨seqNum, bytes, e.currentEpoch, f.cursorX, f.cursorY, old⟩ rfl
    rw [writesOf] at hback
    rw [hback, hcols, hrows]
    exact h.cells
  · rw [List.reverse_append, List.reverse_singleton, List.singleton_append]
    exact h.cursor

/-- RUN: batches, one after the other. -/
theorem Beneath.applyAll (batches : List (Bytes × ℕ)) (h : Beneath base e f) :
    ∃ e' f', batches.foldlM (fun (x : LocalEchoEngine × TerminalFrame) batch =>
        x.1.applyKeystrokes x.2 batch.1 batch.2) (e, f) = some (e', f') ∧ Beneath base e' f' := by
  induction batches generalizing e f with
  | nil => exact ⟨e, f, rfl, h⟩
  | cons batch batches ih =>
    obtain ⟨old, ha⟩ := applyKeystrokes_eq e h.sized batch.1 batch.2
    obtain ⟨e', f', hrest, hb⟩ := ih (h.applyKeystrokes ha)
    refine ⟨e', f', ?_, hb⟩
    rw [List.foldlM_cons, ha, Option.bind_eq_bind, Option.bind_some]
    exact hrest

/-- `abort` uncovers the screen beneath. -/
theorem Beneath.abort (h : Beneath base e f) :
    ∃ f', e.abort f = some ({ unconfirmedInputs := [], currentEpoch := e.currentEpoch + 1 }, f') ∧
      f'.cellCache = base.cellCache ∧ f'.cursor = base.cursor ∧ f'.cols = base.cols ∧
      f'.rows = base.rows :=
  ⟨_, abort_eq e h.sized, h.cells, h.cursor, h.cols, h.rows⟩

/-- `reconcile_frame` starts over on the screen it is given. -/
theorem beneath_reconcileFrame (hf : f.Sized) {ackSeq : ℕ}
    (h : e.reconcileFrame f ackSeq = some (e', f')) : Beneath f e' f' := by
  have hstart : Beneath f { e with unconfirmedInputs := [] } f := beneath_start hf rfl
  obtain ⟨e₁, f₁, hrun, hb⟩ :=
    hstart.applyAll ((e.surviving ackSeq).map fun entry => (entry.bytes, entry.seqNum))
  rw [List.foldlM_map] at hrun
  obtain ⟨rfl, rfl⟩ := Prod.mk.inj (Option.some.inj (hrun.symm.trans h))
  exact hb

end LocalEchoEngine

/-! ### The new grid -/

namespace TerminalFrame

/-- A step of the comparison with a grid: the size stays, and each cell stays or becomes the grid's. -/
structure Toward (newState : GridState) (f f' : TerminalFrame) : Prop where
  cols : f'.cols = f.cols
  rows : f'.rows = f.rows
  cells : f'.cellCache.length = f.cellCache.length
  cell : ∀ i : ℕ, f'.cellCache[i]? = f.cellCache[i]? ∨ f'.cellCache[i]? = newState.cells[i]?

variable {newState : GridState} {f f' f'' : TerminalFrame}

theorem Toward.refl (newState : GridState) (f : TerminalFrame) : Toward newState f f :=
  ⟨rfl, rfl, rfl, fun _ => .inl rfl⟩

theorem Toward.trans (h : Toward newState f f') (h' : Toward newState f' f'') :
    Toward newState f f'' := by
  refine ⟨h'.cols.trans h.cols, h'.rows.trans h.rows, h'.cells.trans h.cells, fun i => ?_⟩
  rcases h'.cell i with hc | hc
  · rw [hc]
    exact h.cell i
  · exact .inr hc

/-- What is the grid's stays the grid's. -/
theorem Toward.keeps (h : Toward newState f f') {i : ℕ} (hi : f.cellCache[i]? = newState.cells[i]?) :
    f'.cellCache[i]? = newState.cells[i]? := by
  rcases h.cell i with hc | hc
  · exact hc.trans hi
  · exact hc

/-- STEP: the compared cell is the grid's afterwards. -/
theorem updateCell_toward (hlen : newState.cells.length = f.cellCache.length) (y : ℕ) (changed : Bool)
    (x : ℕ) : Toward newState f (updateCell newState y (f, changed) x).1 ∧
      (updateCell newState y (f, changed) x).1.cellCache[y * f.cols + x]? =
        newState.cells[y * f.cols + x]? := by
  unfold updateCell
  dsimp only
  split
  · rename_i old new hold hnew
    split
    · refine ⟨⟨rfl, rfl, List.length_set, fun i => ?_⟩, ?_⟩
      · by_cases hi : y * f.cols + x = i
        · rw [← hi, List.getElem?_set_self (List.getElem?_eq_some_iff.mp hold).1, hnew]
          exact .inr rfl
        · exact .inl (List.getElem?_set_ne hi)
      · rw [List.getElem?_set_self (List.getElem?_eq_some_iff.mp hold).1, hnew]
    · rename_i heq
      exact ⟨.refl _ _, by rw [hold, hnew, not_not.mp heq]⟩
  · rename_i hnone
    refine ⟨.refl _ _, ?_⟩
    by_cases hi : y * f.cols + x < f.cellCache.length
    · exact (hnone _ _ (List.getElem?_eq_getElem hi) (List.getElem?_eq_getElem (hlen ▸ hi))).elim
    · rw [List.getElem?_eq_none (Nat.not_lt.mp hi), List.getElem?_eq_none (hlen ▸ Nat.not_lt.mp hi)]

/-- RUN: the cells of one row. -/
theorem updateCells_toward (y : ℕ) (xs : List ℕ) (hlen : newState.cells.length = f.cellCache.length)
    (changed : Bool) : Toward newState f (xs.foldl (updateCell newState y) (f, changed)).1 ∧
      ∀ x ∈ xs, (xs.foldl (updateCell newState y) (f, changed)).1.cellCache[y * f.cols + x]? =
        newState.cells[y * f.cols + x]? := by
  induction xs generalizing f changed with
  | nil => exact ⟨.refl _ _, by simp⟩
  | cons x xs ih =>
    obtain ⟨hstep, hx⟩ := updateCell_toward hlen y changed x
    obtain ⟨hrest, hxs⟩ := ih (hlen.trans hstep.cells.symm) (updateCell newState y (f, changed) x).2
    rw [hstep.cols] at hxs
    refine ⟨hstep.trans hrest, fun x' hx' => ?_⟩
    rcases List.mem_cons.mp hx' with rfl | hx'
    · exact hrest.keeps hx
    · exact hxs x' hx'

/-- STEP: one row. -/
theorem updateRow_toward (hlen : newState.cells.length = f.cellCache.length) {y : ℕ}
    (h : updateRow newState f y = some f') :
    Toward newState f f' ∧ ∀ x < f.cols, f'.cellCache[y * f.cols + x]? =
      newState.cells[y * f.cols + x]? := by
  obtain ⟨htoward, hcells⟩ := updateCells_toward y (List.range f.cols) hlen false
  have hrow : ∀ x < f.cols, ((List.range f.cols).foldl (updateCell newState y)
      (f, false)).1.cellCache[y * f.cols + x]? = newState.cells[y * f.cols + x]? := fun x hx =>
    hcells x (List.mem_range.mpr hx)
  unfold updateRow at h
  dsimp only at h
  split at h
  · split at h
    · cases h
      exact ⟨⟨htoward.cols, htoward.rows, htoward.cells, htoward.cell⟩, hrow⟩
    · cases h
  · cases h
    exact ⟨htoward, hrow⟩

/-- RUN: all rows. -/
theorem updateRows_toward (ys : List ℕ) (hlen : newState.cells.length = f.cellCache.length)
    (h : ys.foldlM (updateRow newState) f = some f') :
    Toward newState f f' ∧ ∀ y ∈ ys, ∀ x < f.cols, f'.cellCache[y * f.cols + x]? =
      newState.cells[y * f.cols + x]? := by
  induction ys generalizing f with
  | nil =>
    cases h
    exact ⟨.refl _ _, by simp⟩
  | cons y ys ih =>
    obtain ⟨f₁, h₁, h⟩ := Option.bind_eq_some_iff.mp h
    obtain ⟨hstep, hx⟩ := updateRow_toward hlen h₁
    obtain ⟨hrest, hys⟩ := ih (hlen.trans hstep.cells.symm) h
    rw [hstep.cols] at hys
    refine ⟨hstep.trans hrest, fun y' hy' x hx' => ?_⟩
    rcases List.mem_cons.mp hy' with rfl | hy'
    · exact hrest.keeps (hx x hx')
    · exact hys y' hy' x hx'

/-- After `update_from_grid_state` the screen shows the grid. -/
theorem updateFromGridState_shows (hf : f.Sized) (hg : newState.WellFormed)
    (h : f.updateFromGridState newState = some f') :
    f'.cellCache = newState.cells ∧ f'.cols = newState.cols ∧ f'.rows = newState.rows ∧
      f'.cursor = (newState.cursorX, newState.cursorY) := by
  obtain ⟨f₁, h₁, rfl⟩ := Option.map_eq_some_iff.mp h
  have hdim : (f.resizedTo newState).cols = newState.cols ∧
      (f.resizedTo newState).rows = newState.rows := by
    obtain ⟨_, _, _, hframe⟩ := resizedTo_frame f newState
    rw [hframe]
    exact ⟨rfl, rfl⟩
  have hlen : newState.cells.length = (f.resizedTo newState).cellCache.length := by
    rw [(resizedTo_spec hf newState).1.cells, hdim.1, hdim.2, hg.cells]
  obtain ⟨htoward, hcells⟩ := updateRows_toward _ hlen h₁
  have hshown : f₁.cellCache = newState.cells := by
    refine List.ext_getElem? fun i => ?_
    by_cases hi : i < newState.cells.length
    · obtain ⟨y, x, hy, hx, rfl⟩ := GridState.exists_coords (hg.cells ▸ hi)
      rw [← hdim.1] at hx ⊢
      exact hcells y (List.mem_range.mpr hy) x hx
    · rw [List.getElem?_eq_none (Nat.not_lt.mp hi), List.getElem?_eq_none]
      rw [htoward.cells, ← hlen]
      exact Nat.not_lt.mp hi
  obtain ⟨_, heq, -⟩ := updateCursor_frame f₁ newState
  rw [heq]
  exact ⟨hshown, htoward.cols.trans hdim.1, htoward.rows.trans hdim.2, rfl⟩

end TerminalFrame

namespace ClientTerminal
open TerminalFrame LocalEchoEngine

/-- A frame that ends local echo leaves its grid on the screen, and nothing on top of it. -/
theorem abortPrediction_applyFrame {t u t' : ClientTerminal} {g : GridState} {serverSeq : ℕ}
    (ht : t.frame.Sized) (hg : g.WellFormed) (hframe : t.applyFrame g serverSeq = some u)
    (habort : u.abortPrediction = some t') :
    t'.frame.cellCache = g.cells ∧ t'.frame.cols = g.cols ∧ t'.frame.rows = g.rows ∧
      t'.frame.cursor = (g.cursorX, g.cursorY) ∧ t'.echoEngine.unconfirmedInputs = [] := by
  obtain ⟨f, hf, hrec⟩ := Option.bind_eq_some_iff.mp hframe
  obtain ⟨⟨e, f₁⟩, hreplay, rfl⟩ := Option.map_eq_some_iff.mp hrec
  obtain ⟨hcells, hcols, hrows, hcursor⟩ := updateFromGridState_shows ht hg hf
  obtain ⟨f₀, hf₀, hsized, -⟩ := updateFromGridState_spec ht g
  obtain rfl := Option.some.inj (hf.symm.trans hf₀)
  have hsized' : ({ f with lastSeq := serverSeq } : TerminalFrame).Sized :=
    ⟨hsized.cells, hsized.rowDirty⟩
  obtain ⟨f', hab, hcells', hcursor', hcols', hrows'⟩ := (beneath_reconcileFrame hsized' hreplay).abort
  rw [abortPrediction, ofPair, hab] at habort
  cases habort
  exact ⟨hcells'.trans hcells, hcols'.trans hcols, hrows'.trans hrows, hcursor'.trans hcursor, rfl⟩

end ClientTerminal

/-! ### Sessions -/

namespace MirrorSession
open LocalEchoEngine
variable {C : Type} {s s' : MirrorSession C}

/-- The states a session keeps are well formed. -/
def HistoryFormed (s : MirrorSession C) : Prop := ∀ e ∈ s.stateHistory, e.2.WellFormed

theorem mem_of_mem_capHistory {history : List (ℕ × GridState)} {e : ℕ × GridState}
    (h : e ∈ capHistory history) : e ∈ history := by
  unfold capHistory at h
  split at h
  · exact List.mem_of_mem_tail h
  · exact h

theorem HistoryFormed.gridOf (h : s.HistoryFormed) {payload : ServerPayload} {g : GridState}
    (hg : s.gridOf payload = some g) : g.WellFormed := by
  cases payload with
  | frame update =>
    obtain ⟨base, hb, hp⟩ := Option.bind_eq_some_iff.mp hg
    have hbase : base.WellFormed := by
      unfold baseFor at hb
      split at hb
      · cases hb
        exact GridState.blank_wellFormed _ _
      · obtain ⟨e, he, rfl⟩ := Option.map_eq_some_iff.mp hb
        exact h e (List.mem_of_find?_eq_some he)
    split at hp
    · rename_i g' hpatch
      cases hp
      exact GridState.patch_wellFormed hbase hpatch
    · cases hp
  | _ => cases hg

variable [PacketCodec C]

/-- STEP: what is put into the history is well formed. -/
theorem HistoryFormed.step {ev : MirrorEvent} (h : s.HistoryFormed) (hs : s.step ev = some s') :
    s'.HistoryFormed := by
  rcases step_cases hs with ⟨-, hhist, -⟩ | ⟨q, p, -, -, -, ⟨-, hhist, -⟩ | ⟨g, hg, hhist, -⟩⟩
  · rw [HistoryFormed, hhist]
    exact h
  · rw [HistoryFormed, hhist]
    exact h
  · intro e he
    rw [hhist] at he
    rcases List.mem_append.mp (mem_of_mem_capHistory he) with he | he
    · exact h e he
    · rw [List.mem_singleton.mp he]
      exact h.gridOf hg

/-- ROLLBACK: batches drawn on any screen without pending ones are taken back exactly; and in every
    reachable session, a frame that is applied and ends local echo leaves exactly its grid on the
    screen and no batch pending. -/
theorem rollback_exact :
    (∀ (f : TerminalFrame) (e : LocalEchoEngine) (batches : List (Bytes × ℕ)), f.Sized →
      e.unconfirmedInputs = [] →
      ∃ e' f' e'' f'', batches.foldlM (fun (x : LocalEchoEngine × TerminalFrame) batch =>
          x.1.applyKeystrokes x.2 batch.1 batch.2) (e, f) = some (e', f') ∧
        e'.abort f' = some (e'', f'') ∧ f''.cellCache = f.cellCache ∧ f''.cursor = f.cursor) ∧
    ∀ {sid : ℕ} {codec : C} {startServerSeq cols rows : ℕ} {overlay : Bool} {start now : Instant}
      {events : List MirrorEvent} {s s' : MirrorSession C} {bytes : Bytes}
      {packet : EncryptedServerPacket} {update : FrameUpdate} {stats : CodecStats}
      {r : Except Error (List ClientAction)},
      runFrom step (new sid codec startServerSeq cols rows overlay start) events = some s →
      (PacketCodec.openServer s.codec bytes).2 = .ok (some (packet, .frame update, stats)) →
      s.appliesFrame packet (.frame update) = true → update.isEchoEnabled = false →
      s.feedPacket bytes now = some (s', r) →
      ∃ g, s.gridOf (.frame update) = some g ∧
        s'.stateHistory.getLast? = some (packet.seqNum, g) ∧
        s'.mirror.frame.cellCache = g.cells ∧ s'.mirror.frame.cols = g.cols ∧
        s'.mirror.frame.rows = g.rows ∧ s'.mirror.frame.cursor = (g.cursorX, g.cursorY) ∧
        s'.mirror.echoEngine.unconfirmedInputs = [] := by
  refine ⟨fun f e batches hf he => ?_, ?_⟩
  · obtain ⟨e', f', hrun, hb⟩ := (beneath_start hf he).applyAll batches
    obtain ⟨f'', habort, hcells, hcursor, -⟩ := hb.abort
    exact ⟨e', f', _, f'', hrun, habort, hcells, hcursor⟩
  · intro sid codec startServerSeq cols rows overlay start now events s s' bytes packet update stats r
      hrun hopen happ hecho hfeed
    have hformed : s.HistoryFormed := run_invariant_all (fun _ _ _ h hs => HistoryFormed.step h hs)
      (by simp [HistoryFormed, new]) hrun
    have hstep : s.step (.recv bytes now) = some s' := by simp [step, turn, react, hfeed]
    obtain ⟨m, t, hm, hsame, hcase⟩ := feedPacket_mirror hopen hfeed
    obtain ⟨hpend, -⟩ := (pending_run hrun).acknowledge hm
    have habs : s.aborts packet (.frame update) = true := by simp [aborts, happ, hecho]
    rcases hcase with ⟨hno, -⟩ | ⟨-, g, u, hg, hu, ⟨hno, -⟩ | ⟨-, hab⟩⟩
    · rw [happ] at hno
      cases hno
    · rw [habs] at hno
      cases hno
    · refine ⟨g, hg, ?_, ClientTerminal.abortPrediction_applyFrame (hsame.sized hpend.sized)
        (hformed.gridOf hg) hu hab⟩
      have harr : s.arrival (.recv bytes now) = some (packet.seqNum, .frame update) := by
        simp [arrival, hopen]
      have hlt : s.ackSeqNum < packet.seqNum := by
        simp only [appliesFrame, Bool.and_eq_true, decide_eq_true_eq] at happ
        exact happ.1
      rcases step_cases hstep with ⟨-, -, -, hle⟩ | ⟨q, p, hq, -, -, ⟨hnone, -⟩ | ⟨g', hg', hhist, -⟩⟩
      · exact absurd (hle _ _ harr) (Nat.not_le.mpr hlt)
      · rw [harr] at hq
        cases hq
        rw [hg] at hnone
        cases hnone
      · rw [harr] at hq
        cases hq
        rw [hg] at hg'
        cases hg'
        rw [hhist, Watched.getLast?_capHistory]

/-- A typed character is on the screen of one cell when the server's first frame arrives with echo off:
    the frame's blank cell is shown. And three batches over two cells, with a wrap and a backspace, are
    taken back. -/
theorem rollback_exact_silent_frame :
    (∃ e' f' e'' f'', [([0x61, 0x62, 0x63], 1), ([0x08, 0x64], 2), ([0x0d, 0xc3], 3)].foldlM
        (fun (x : LocalEchoEngine × TerminalFrame) batch => x.1.applyKeystrokes x.2 batch.1 batch.2)
        ({}, TerminalFrame.new 2 1) = some (e', f') ∧ e'.abort f' = some (e'', f'') ∧
      f'.cellCache ≠ (TerminalFrame.new 2 1).cellCache ∧
      f''.cellCache = (TerminalFrame.new 2 1).cellCache ∧
      f''.cursor = (TerminalFrame.new 2 1).cursor) ∧
    ∃ (s s' : MirrorSession (ChaChaCodec Bincode.crates)) (d : Bytes) (packet : EncryptedServerPacket)
      (stats : CodecStats) (r : Except Error (List ClientAction)) (g : GridState),
      let codec := ChaChaCodec.new Bincode.crates (Vector.replicate 32 0) (2 ^ 32)
      let update := { Watched.firstFrame with isEchoEnabled := false }
      codec.sealServer 1 0 (.frame update) = .ok [d] ∧
      runFrom step (new (2 ^ 32) codec 1 1 1 false 0) [.stdin [0x61] 1] = some s ∧
      (PacketCodec.openServer s.codec d).2 = .ok (some (packet, .frame update, stats)) ∧
      s.appliesFrame packet (.frame update) = true ∧ s.feedPacket d 2 = some (s', r) ∧
      s.mirror.frame.cellCache ≠ g.cells ∧ s'.mirror.frame.cellCache = g.cells := by
  have hexact := rollback_exact (C := ChaChaCodec Bincode.crates)
  constructor
  · obtain ⟨e', f', e'', f'', hrun, habort, hcells, hcursor⟩ :=
      hexact.1 (TerminalFrame.new 2 1) {} [([0x61, 0x62, 0x63], 1), ([0x08, 0x64], 2), ([0x0d, 0xc3], 3)]
        ⟨by decide, by decide⟩ rfl
    refine ⟨e', f', e'', f'', hrun, habort, ?_, hcells, hcursor⟩
    have hdrawn := congrArg (Option.map fun x => x.2.cellCache) hrun
    intro heq
    rw [Option.map_some, heq] at hdrawn
    revert hdrawn
    decide +kernel
  · obtain ⟨s, s', d, packet, stats, r, hseal, hrun, hopen, happ, hfeed, hdrawn, hgrid⟩ :
        ∃ (s s' : MirrorSession (ChaChaCodec Bincode.crates)) (d : Bytes)
          (packet : EncryptedServerPacket) (stats : CodecStats) (r : Except Error (List ClientAction)),
          (ChaChaCodec.new Bincode.crates (Vector.replicate 32 0) (2 ^ 32)).sealServer 1 0
            (.frame { Watched.firstFrame with isEchoEnabled := false }) = .ok [d] ∧
          runFrom step (new (2 ^ 32) (ChaChaCodec.new Bincode.crates (Vector.replicate 32 0) (2 ^ 32))
            1 1 1 false 0) [.stdin [0x61] 1] = some s ∧
          (PacketCodec.openServer s.codec d).2 =
            .ok (some (packet, .frame { Watched.firstFrame with isEchoEnabled := false }, stats)) ∧
          s.appliesFrame packet (.frame { Watched.firstFrame with isEchoEnabled := false }) = true ∧
          s.feedPacket d 2 = some (s', r) ∧ s.mirror.frame.cellCache = [glyph 0x61] ∧
          (s.gridOf (.frame { Watched.firstFrame with isEchoEnabled := false })).map
            GridState.cells = some [blankCell] :=
      ⟨_, _, _, _, _, _, rfl, rfl, rfl, rfl, rfl, by decide +kernel, rfl⟩
    obtain ⟨g, hg, -, hcells, -⟩ := hexact.2 hrun hopen happ rfl hfeed
    refine ⟨s, s', d, packet, stats, r, g, hseal, hrun, hopen, happ, hfeed, ?_, hcells⟩
    rw [hg] at hgrid
    rw [hdrawn, Option.some.inj hgrid]
    decide

end MirrorSession

end Rumsh.Client
