import Rumsh.Client.Steps

/-! What local echo draws.

    A batch of keystrokes writes cells and moves the cursor in a way that depends on the size of the
    screen, the cursor and the bytes alone, not on what the screen shows. `strokes` and `penAfter` say
    it without the screen, and `paint` puts strokes on a frame; drawing, replaying and taking back are
    each one `paint`. None of them touches the flags the painter goes by. -/

namespace Rumsh.Client
open Rumsh.Schemes Rumsh.Protocol

namespace TerminalFrame

/-- The buffers have the size of the screen. -/
structure Sized (f : TerminalFrame) : Prop where
  cells : f.cellCache.length = f.cols * f.rows
  rowDirty : f.rowDirty.length = f.rows

/-- A position, column first, and the cell to put there. -/
abbrev Stroke := (ℕ × ℕ) × LocalCellData

/-- Where the strokes go in a buffer of this many columns. -/
def writesOf (cols : ℕ) (strokes : List Stroke) : List (ℕ × LocalCellData) :=
  strokes.map fun stroke => (stroke.1.2 * cols + stroke.1.1, stroke.2)

/-- Cells drawn over the frame, and its cursor moved. -/
def paint (f : TerminalFrame) (strokes : List Stroke) (cursor : ℕ × ℕ) : TerminalFrame :=
  { f with cellCache := overwrite f.cellCache (writesOf f.cols strokes),
           cursorX := cursor.1, cursorY := cursor.2 }

def cursor (f : TerminalFrame) : ℕ × ℕ := (f.cursorX, f.cursorY)

@[simp] theorem cursor_paint (f : TerminalFrame) (strokes : List Stroke) (p : ℕ × ℕ) :
    (f.paint strokes p).cursor = p := rfl

@[simp] theorem paint_nil (f : TerminalFrame) : f.paint [] f.cursor = f := rfl

theorem paint_paint (f : TerminalFrame) (strokes strokes' : List Stroke) (p p' : ℕ × ℕ) :
    (f.paint strokes p).paint strokes' p' = f.paint (strokes ++ strokes') p' := by
  simp only [paint, writesOf, List.map_append, overwrite_append]

theorem Sized.paint {f : TerminalFrame} (h : f.Sized) (strokes : List Stroke) (p : ℕ × ℕ) :
    (f.paint strokes p).Sized :=
  ⟨by simpa [TerminalFrame.paint] using h.cells, h.rowDirty⟩

theorem Sized.index_lt {f : TerminalFrame} (h : f.Sized) {x y : ℕ} (hx : x < f.cols) (hy : y < f.rows) :
    y * f.cols + x < f.cellCache.length := by
  rw [h.cells]
  calc y * f.cols + x < y * f.cols + f.cols := by omega
    _ = f.cols * (y + 1) := by ring
    _ ≤ f.cols * f.rows := Nat.mul_le_mul_left _ hy

end TerminalFrame

namespace LocalEchoEngine
open TerminalFrame

/-! ### The pen -/

/-- The cell of a printable byte. -/
def glyph (b : UInt8) : LocalCellData := { blankCell with graphemes := CompactGrapheme.new [b] }

def isPrintable (b : UInt8) : Bool := 0x20 ≤ b && b < 0x7f

/-- The line below, held at the last one. -/
def lineBelow (rows y : ℕ) : ℕ := min ((y + 1) % 2 ^ 16) (rows - 1)

/-- Where a byte moves the cursor. -/
def moveOf (cols rows : ℕ) (p : ℕ × ℕ) (b : UInt8) : ℕ × ℕ :=
  if b = 0x0d then (0, p.2)
  else if b = 0x0a then (0, lineBelow rows p.2)
  else if b = 0x08 ∨ b = 0x7f then (p.1 - 1, p.2)
  else if isPrintable b ∧ p.1 < cols ∧ p.2 < rows then
    if p.1 + 1 ≥ cols then (0, lineBelow rows p.2) else (p.1 + 1, p.2)
  else p

/-- What a byte draws. -/
def strokeOf (cols rows : ℕ) (p : ℕ × ℕ) (b : UInt8) : List Stroke :=
  if b = 0x0d ∨ b = 0x0a then []
  else if b = 0x08 ∨ b = 0x7f then
    if 0 < p.1 ∧ p.1 - 1 < cols ∧ p.2 < rows then [((p.1 - 1, p.2), blankCell)] else []
  else if isPrintable b ∧ p.1 < cols ∧ p.2 < rows then [(p, glyph b)]
  else []

/-- What a batch draws, from a cursor on. -/
def strokes (cols rows : ℕ) : ℕ × ℕ → Bytes → List Stroke
  | _, [] => []
  | p, b :: bytes => strokeOf cols rows p b ++ strokes cols rows (moveOf cols rows p b) bytes

/-- Where a batch leaves the cursor. -/
def penAfter (cols rows : ℕ) (p : ℕ × ℕ) (bytes : Bytes) : ℕ × ℕ := bytes.foldl (moveOf cols rows) p

theorem strokes_append (cols rows : ℕ) (p : ℕ × ℕ) (as bs : Bytes) :
    strokes cols rows p (as ++ bs) =
      strokes cols rows p as ++ strokes cols rows (penAfter cols rows p as) bs := by
  induction as generalizing p with
  | nil => rfl
  | cons a as ih => simp [strokes, penAfter, ih]

theorem penAfter_append (cols rows : ℕ) (p : ℕ × ℕ) (as bs : Bytes) :
    penAfter cols rows p (as ++ bs) = penAfter cols rows (penAfter cols rows p as) bs :=
  List.foldl_append

/-! ### Drawing -/

theorem drawCell_eq {f : TerminalFrame} (hf : f.Sized) {x y : ℕ} (hx : x < f.cols) (hy : y < f.rows)
    (old : List (ℕ × ℕ × LocalCellData)) (cell : LocalCellData) :
    ∃ old', drawCell (f, old) x y cell = some (f.paint [((x, y), cell)] f.cursor, old') := by
  have hlt := hf.index_lt hx hy
  simp only [drawCell, List.getElem?_eq_getElem hlt]
  exact ⟨_, rfl⟩

section Bytes
variable {f : TerminalFrame} (hf : f.Sized) (old : List (ℕ × ℕ × LocalCellData)) {b : UInt8}
include hf

/-- Backspace and DEL blank the cell to the left of the cursor, if there is one. -/
theorem drawByte_backspace (hb : b = 0x08 ∨ b = 0x7f) : ∃ old', drawByte (f, old) b =
    some (f.paint (strokeOf f.cols f.rows f.cursor b) (moveOf f.cols f.rows f.cursor b), old') := by
  have hcr : b ≠ 0x0d := by rcases hb with rfl | rfl <;> decide
  have hlf : b ≠ 0x0a := by rcases hb with rfl | rfl <;> decide
  simp only [drawByte, strokeOf, moveOf, hcr, hlf, or_self, if_false, if_pos hb]
  by_cases hx : f.cursorX > 0
  · rw [if_pos hx]
    by_cases hin : f.cursorX - 1 < f.cols ∧ f.cursorY < f.rows
    · have hin' : 0 < f.cursor.1 ∧ f.cursor.1 - 1 < f.cols ∧ f.cursor.2 < f.rows := ⟨hx, hin⟩
      obtain ⟨old', ho⟩ :=
        drawCell_eq (hf.paint [] (f.cursorX - 1, f.cursorY)) hin.1 hin.2 old blankCell
      rw [if_pos hin, if_pos hin']
      exact ⟨old', ho⟩
    · have hin' : ¬ (0 < f.cursor.1 ∧ f.cursor.1 - 1 < f.cols ∧ f.cursor.2 < f.rows) :=
        fun h => hin h.2
      rw [if_neg hin, if_neg hin']
      exact ⟨old, rfl⟩
  · have hx' : ¬ (0 < f.cursor.1 ∧ f.cursor.1 - 1 < f.cols ∧ f.cursor.2 < f.rows) := fun h => hx h.1
    have h0 : f.cursor.1 - 1 = f.cursorX := by
      rw [Nat.le_zero.mp (Nat.not_lt.mp hx)]
      exact Nat.sub_eq_zero_of_le ((Nat.not_lt.mp hx).trans (Nat.zero_le _))
    rw [if_neg hx, if_neg hx', h0]
    exact ⟨old, rfl⟩

/-- A printable byte is drawn at the cursor, which moves on, to the next line from the last column. -/
theorem drawByte_printable (hb : 0x20 ≤ b ∧ b < 0x7f) : ∃ old', drawByte (f, old) b =
    some (f.paint (strokeOf f.cols f.rows f.cursor b) (moveOf f.cols f.rows f.cursor b), old') := by
  have hcr : b ≠ 0x0d := by rintro rfl; exact absurd hb.1 (by decide)
  have hlf : b ≠ 0x0a := by rintro rfl; exact absurd hb.1 (by decide)
  have hbs : ¬ (b = 0x08 ∨ b = 0x7f) := by
    rintro (rfl | rfl)
    · exact absurd hb.1 (by decide)
    · exact absurd hb.2 (by decide)
  have hpr : isPrintable b = true := by simp [isPrintable, hb]
  simp only [drawByte, strokeOf, moveOf, hcr, hlf, or_self, if_false, if_neg hbs, if_pos hb]
  by_cases hin : f.cursorX < f.cols ∧ f.cursorY < f.rows
  · have hin' : isPrintable b = true ∧ f.cursor.1 < f.cols ∧ f.cursor.2 < f.rows := ⟨hpr, hin⟩
    obtain ⟨old', ho⟩ := drawCell_eq hf hin.1 hin.2 old (glyph b)
    rw [if_pos hin, if_pos hin', if_pos hin']
    refine ⟨old', ?_⟩
    show (drawCell (f, old) f.cursorX f.cursorY (glyph b)).map _ = _
    rw [ho, Option.map_some]
    by_cases hw : f.cursorX + 1 ≥ f.cols
    · have hw' : f.cursor.1 + 1 ≥ f.cols := hw
      have hw'' : (f.paint [((f.cursorX, f.cursorY), glyph b)] f.cursor).cursorX + 1 ≥
        (f.paint [((f.cursorX, f.cursorY), glyph b)] f.cursor).cols := hw
      dsimp only
      rw [if_pos hw', if_pos hw'']
      rfl
    · have hw' : ¬ f.cursor.1 + 1 ≥ f.cols := hw
      have hw'' : ¬ (f.paint [((f.cursorX, f.cursorY), glyph b)] f.cursor).cursorX + 1 ≥
        (f.paint [((f.cursorX, f.cursorY), glyph b)] f.cursor).cols := hw
      dsimp only
      rw [if_neg hw', if_neg hw'']
      rfl
  · have hin' : ¬ (isPrintable b = true ∧ f.cursor.1 < f.cols ∧ f.cursor.2 < f.rows) :=
      fun h => hin h.2
    rw [if_neg hin, if_neg hin', if_neg hin']
    exact ⟨old, rfl⟩

/-- STEP: a byte of a batch draws its stroke and moves the cursor. -/
theorem drawByte_eq (b : UInt8) : ∃ old', drawByte (f, old) b =
    some (f.paint (strokeOf f.cols f.rows f.cursor b) (moveOf f.cols f.rows f.cursor b), old') := by
  by_cases hbs : b = 0x08 ∨ b = 0x7f
  · exact drawByte_backspace hf old hbs
  by_cases hp : 0x20 ≤ b ∧ b < 0x7f
  · exact drawByte_printable hf old hp
  refine ⟨old, ?_⟩
  by_cases hcr : b = 0x0d
  · simp only [drawByte, strokeOf, moveOf, hcr, true_or, if_true]
    rfl
  by_cases hlf : b = 0x0a
  · simp only [drawByte, strokeOf, moveOf, hlf]
    rfl
  -- any other byte draws nothing
  have hpr : ¬ (isPrintable b = true ∧ f.cursor.1 < f.cols ∧ f.cursor.2 < f.rows) := by
    simp [isPrintable, hp]
  simp only [drawByte, strokeOf, moveOf, hcr, hlf, or_self, if_false, if_neg hbs, if_neg hp, if_neg hpr]
  rfl

end Bytes

/-- RUN: a batch draws its strokes. -/
theorem drawBytes_eq (bytes : Bytes) {f : TerminalFrame} (hf : f.Sized)
    (old : List (ℕ × ℕ × LocalCellData)) :
    ∃ old', bytes.foldlM drawByte (f, old) =
      some (f.paint (strokes f.cols f.rows f.cursor bytes) (penAfter f.cols f.rows f.cursor bytes),
        old') := by
  induction bytes generalizing f old with
  | nil => exact ⟨old, rfl⟩
  | cons b bytes ih =>
    obtain ⟨old₁, h₁⟩ := drawByte_eq hf old b
    obtain ⟨old₂, h₂⟩ := ih (hf.paint (strokeOf f.cols f.rows f.cursor b)
      (moveOf f.cols f.rows f.cursor b)) old₁
    refine ⟨old₂, ?_⟩
    rw [List.foldlM_cons, h₁, Option.bind_eq_bind, Option.bind_some, h₂, paint_paint]
    rfl

theorem applyKeystrokes_eq (e : LocalEchoEngine) {f : TerminalFrame} (hf : f.Sized) (bytes : Bytes)
    (seqNum : ℕ) :
    ∃ oldCells, e.applyKeystrokes f bytes seqNum =
      some ({ e with unconfirmedInputs := e.unconfirmedInputs ++
          [{ seqNum, bytes, epoch := e.currentEpoch, oldCursorX := f.cursorX,
             oldCursorY := f.cursorY, oldCells }] },
        f.paint (strokes f.cols f.rows f.cursor bytes) (penAfter f.cols f.rows f.cursor bytes)) := by
  obtain ⟨old, h⟩ := drawBytes_eq bytes hf []
  exact ⟨old, by rw [applyKeystrokes, h]; rfl⟩

/-! ### Replaying -/

/-- A batch as the claimed input: its number and its bytes. -/
def keyOf (entry : PredictionEntry) : ℕ × Bytes := (entry.seqNum, entry.bytes)

/-- The pending batches, oldest first. -/
def keys (e : LocalEchoEngine) : List (ℕ × Bytes) := e.unconfirmedInputs.map keyOf

/-- The bytes of batches, one after the other. -/
def textOf (batches : List (ℕ × Bytes)) : Bytes := batches.flatMap Prod.snd

/-- RUN: replaying batches draws their text, and leaves them pending in the current epoch. -/
theorem replay_eq (entries : List PredictionEntry) (e : LocalEchoEngine) {f : TerminalFrame}
    (hf : f.Sized) (he : ∀ p ∈ e.unconfirmedInputs, p.epoch = e.currentEpoch) :
    ∃ e', entries.foldlM (fun (x : LocalEchoEngine × TerminalFrame) entry =>
        x.1.applyKeystrokes x.2 entry.bytes entry.seqNum) (e, f) =
      some (e', f.paint (strokes f.cols f.rows f.cursor (textOf (entries.map keyOf)))
        (penAfter f.cols f.rows f.cursor (textOf (entries.map keyOf)))) ∧
      e'.currentEpoch = e.currentEpoch ∧ e'.keys = e.keys ++ entries.map keyOf ∧
      ∀ p ∈ e'.unconfirmedInputs, p.epoch = e'.currentEpoch := by
  induction entries generalizing e f with
  | nil => exact ⟨e, rfl, rfl, by simp, he⟩
  | cons entry entries ih =>
    obtain ⟨old, h⟩ := applyKeystrokes_eq e hf entry.bytes entry.seqNum
    rw [List.foldlM_cons, h, Option.bind_eq_bind, Option.bind_some]
    obtain ⟨e', h', hepoch, hkeys, hall⟩ := ih
      { e with unconfirmedInputs := e.unconfirmedInputs ++
          [{ seqNum := entry.seqNum, bytes := entry.bytes, epoch := e.currentEpoch,
             oldCursorX := f.cursorX, oldCursorY := f.cursorY, oldCells := old }] }
      (hf.paint (strokes f.cols f.rows f.cursor entry.bytes) (penAfter f.cols f.rows f.cursor entry.bytes))
      (by
        intro p hp
        rcases List.mem_append.mp hp with hp | hp
        · exact he p hp
        · rw [List.mem_singleton.mp hp])
    refine ⟨e', ?_, hepoch, ?_, hall⟩
    · rw [h', paint_paint, cursor_paint]
      simp only [List.map_cons, textOf, List.flatMap_cons, strokes_append, penAfter_append]
      rfl
    · rw [hkeys]
      simp [keys, keyOf]

/-- The batches that survive an ack. -/
def surviving (e : LocalEchoEngine) (ackSeq : ℕ) : List PredictionEntry :=
  e.unconfirmedInputs.dropWhile fun front => front.seqNum ≤ ackSeq || front.epoch < e.currentEpoch

/-- `reconcile_frame` draws the text of the batches that survive. -/
theorem reconcileFrame_eq (e : LocalEchoEngine) {f : TerminalFrame} (hf : f.Sized) (ackSeq : ℕ) :
    ∃ e', e.reconcileFrame f ackSeq =
      some (e', f.paint (strokes f.cols f.rows f.cursor (textOf ((e.surviving ackSeq).map keyOf)))
        (penAfter f.cols f.rows f.cursor (textOf ((e.surviving ackSeq).map keyOf)))) ∧
      e'.currentEpoch = e.currentEpoch ∧ e'.keys = (e.surviving ackSeq).map keyOf ∧
      ∀ p ∈ e'.unconfirmedInputs, p.epoch = e'.currentEpoch := by
  obtain ⟨e', h, hepoch, hkeys, hall⟩ :=
    replay_eq (e.surviving ackSeq) { e with unconfirmedInputs := [] } hf (by simp)
  exact ⟨e', h, hepoch, by simpa [keys] using hkeys, hall⟩

/-! ### Taking back -/

/-- What taking back a batch draws: the cells it covered, where they are still on the screen. -/
def restores (cols rows : ℕ) (entry : PredictionEntry) : List Stroke :=
  (entry.oldCells.reverse.filter fun old => decide (old.1 < cols ∧ old.2.1 < rows)).map fun old =>
    ((old.1, old.2.1), old.2.2)

/-- Where taking back batches, in this order, leaves the cursor. -/
def cursorBack (p : ℕ × ℕ) (entries : List PredictionEntry) : ℕ × ℕ :=
  entries.foldl (fun _ entry => (entry.oldCursorX, entry.oldCursorY)) p

theorem restoreCells_eq (old : List (ℕ × ℕ × LocalCellData)) {f : TerminalFrame} (hf : f.Sized) :
    old.foldlM restoreCell f = some (f.paint
      ((old.filter fun o => decide (o.1 < f.cols ∧ o.2.1 < f.rows)).map fun o => ((o.1, o.2.1), o.2.2))
      f.cursor) := by
  induction old generalizing f with
  | nil => rfl
  | cons o old ih =>
    obtain ⟨x, y, cell⟩ := o
    rw [List.foldlM_cons]
    by_cases hin : x < f.cols ∧ y < f.rows
    · have h : restoreCell f (x, y, cell) = some (f.paint [((x, y), cell)] f.cursor) := by
        simp only [restoreCell, if_pos hin, if_pos (hf.index_lt hin.1 hin.2)]
        rfl
      rw [h, Option.bind_eq_bind, Option.bind_some, ih (hf.paint _ _), paint_paint,
        List.filter_cons_of_pos (by simpa using hin)]
      rfl
    · have h : restoreCell f (x, y, cell) = some f := by
        simp only [restoreCell, if_neg hin]
      rw [h, Option.bind_eq_bind, Option.bind_some, ih hf, List.filter_cons_of_neg (by simpa using hin)]

theorem restoreEntries_eq (entries : List PredictionEntry) {f : TerminalFrame} (hf : f.Sized) :
    entries.foldlM restoreEntry f =
      some (f.paint (entries.flatMap (restores f.cols f.rows)) (cursorBack f.cursor entries)) := by
  induction entries generalizing f with
  | nil => rfl
  | cons entry entries ih =>
    have h : restoreEntry f entry = some (f.paint (restores f.cols f.rows entry)
        (entry.oldCursorX, entry.oldCursorY)) :=
      restoreCells_eq entry.oldCells.reverse (hf.paint [] (entry.oldCursorX, entry.oldCursorY))
    rw [List.foldlM_cons, h, Option.bind_eq_bind, Option.bind_some, ih (hf.paint _ _), paint_paint]
    rfl

/-- `abort` puts back what every batch covered, the last one first. -/
theorem abort_eq (e : LocalEchoEngine) {f : TerminalFrame} (hf : f.Sized) :
    e.abort f = some ({ unconfirmedInputs := [], currentEpoch := e.currentEpoch + 1 },
      f.paint (e.unconfirmedInputs.reverse.flatMap (restores f.cols f.rows))
        (cursorBack f.cursor e.unconfirmedInputs.reverse)) := by
  rw [abort, restoreEntries_eq _ hf]
  rfl

end LocalEchoEngine

end Rumsh.Client
