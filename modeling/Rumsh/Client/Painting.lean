import Rumsh.Client.Mirror

/-! What the painter gets to see.

    `consume_updates` hands out a copy of the frame and clears the flags; the next one hands out another
    copy only if a flag was raised since, and the painter draws only the rows that copy marks. A new grid
    raises the flags for all it changes. Local echo draws, replays and takes back without raising any, so
    its changes get painted exactly if the flags are up already. -/

namespace Rumsh.Client
open Rumsh.Schemes Rumsh.Protocol

namespace TerminalFrame

/-- The frame as `consume_updates` leaves it. -/
def wiped (f : TerminalFrame) : TerminalFrame :=
  { f with dirty := false, rowDirty := f.rowDirty.map fun _ => false, clearRequested := false }

/-- Strokes that can be drawn without raising a flag: the frame is flagged if they move the cursor, and
    flagged with the row marked wherever the last stroke to a cell changes it. -/
def Covered (f : TerminalFrame) (strokes : List Stroke) (p : ℕ × ℕ) : Prop :=
  (p ≠ f.cursor → f.flagged = true) ∧
  ∀ x y c, x < f.cols → y < f.rows → lastWrite (writesOf f.cols strokes) (y * f.cols + x) = some c →
    f.cellAt x y ≠ some c → f.rowMarked y ∧ f.flagged = true

/-- A cell of a painted frame: its last stroke, or what was there. -/
theorem cellAt_paint {f : TerminalFrame} (hf : f.Sized) (strokes : List Stroke) (p : ℕ × ℕ) {x y : ℕ}
    (hx : x < f.cols) (hy : y < f.rows) :
    (f.paint strokes p).cellAt x y =
      (lastWrite (writesOf f.cols strokes) (y * f.cols + x)).or (f.cellAt x y) :=
  getElem?_overwrite (hf.index_lt hx hy) _

theorem Covered.marks {f : TerminalFrame} (hf : f.Sized) {strokes : List Stroke} {p : ℕ × ℕ}
    (h : Covered f strokes p) : Marks f (f.paint strokes p) where
  cols := rfl
  rows := rfl
  cells := length_overwrite _ _
  rowDirty := rfl
  keptRow _ := id
  keptFlag := id
  keptClear := id
  cell x y hx hy hne := by
    rw [cellAt_paint hf strokes p hx hy] at hne
    cases hl : lastWrite (writesOf f.cols strokes) (y * f.cols + x) with
    | none =>
      rw [hl, Option.none_or] at hne
      exact absurd rfl hne
    | some c =>
      rw [hl, Option.some_or] at hne
      exact h.2 x y c hx hy hl hne.symm
  cursor hne := by
    refine h.1 fun heq => hne ?_
    rw [cursor_paint, heq]
    rfl

theorem Cleared.flagged {f : TerminalFrame} (h : Cleared f) : f.flagged = true := by
  rw [TerminalFrame.flagged, h.clearRequested, Bool.or_true]

end TerminalFrame

open TerminalFrame LocalEchoEngine ClientTerminal

/-- The mirror, and the last copy of its frame that was handed out. -/
structure Painter where
  terminal : ClientTerminal
  shown : TerminalFrame

namespace Painter

def step (p : Painter) : MirrorOp → Option Painter
  | .consumeUpdates =>
    some { terminal := (p.terminal.consumeUpdates p.shown).1, shown := (p.terminal.consumeUpdates p.shown).2.1 }
  | op => (p.terminal.perform op).map fun terminal => { p with terminal }

/-- A cell or the cursor that differs from the last copy makes the next `consume_updates` hand out
    another one, with the cell's row marked. -/
def Sound (p : Painter) : Prop :=
  ((p.terminal.frame.cursor, p.terminal.frame.cursorVisible) ≠ (p.shown.cursor, p.shown.cursorVisible) →
    (p.terminal.consumeUpdates p.shown).2.2 = true) ∧
  ∀ x y, x < p.terminal.frame.cols → y < p.terminal.frame.rows →
    p.terminal.frame.cellAt x y ≠ p.shown.cellAt x y →
    (p.terminal.consumeUpdates p.shown).2.2 = true ∧ (p.terminal.consumeUpdates p.shown).2.1.rowMarked y

/-- What local echo is about to draw, if anything, is covered by the flags that are up: on the frame as
    it is, or, for a new grid, on the frame as the grid leaves it. -/
def Covers (p : Painter) : MirrorOp → Prop
  | .predictInput bytes _ =>
    Covered p.terminal.frame
      (strokes p.terminal.frame.cols p.terminal.frame.rows p.terminal.frame.cursor bytes)
      (penAfter p.terminal.frame.cols p.terminal.frame.rows p.terminal.frame.cursor bytes)
  | .acknowledge ack =>
    Covered p.terminal.frame
      (strokes p.terminal.frame.cols p.terminal.frame.rows p.terminal.frame.cursor
        (textOf ((p.terminal.echoEngine.surviving ack).map keyOf)))
      (penAfter p.terminal.frame.cols p.terminal.frame.rows p.terminal.frame.cursor
        (textOf ((p.terminal.echoEngine.surviving ack).map keyOf)))
  | .applyFrame newState serverSeq =>
    ∀ f, p.terminal.frame.updateFromGridState newState = some f →
      Covered f
        (strokes f.cols f.rows f.cursor (textOf ((p.terminal.echoEngine.surviving serverSeq).map keyOf)))
        (penAfter f.cols f.rows f.cursor (textOf ((p.terminal.echoEngine.surviving serverSeq).map keyOf)))
  | .abortPrediction =>
    Covered p.terminal.frame
      (p.terminal.echoEngine.unconfirmedInputs.reverse.flatMap
        (restores p.terminal.frame.cols p.terminal.frame.rows))
      (cursorBack p.terminal.frame.cursor p.terminal.echoEngine.unconfirmedInputs.reverse)
  | _ => True

/-- What holds while every drawing is covered: the buffers have their size, and all that differs from
    the last copy is marked, or everything is. -/
structure Tracked (p : Painter) : Prop where
  sized : p.terminal.frame.Sized
  marks : Marks p.shown.wiped p.terminal.frame ∨ Cleared p.terminal.frame

variable {p p' : Painter} {op : MirrorOp}

/-- The flag and the marks of the next copy are those of the frame. -/
theorem consumeUpdates_spec (t : ClientTerminal) (dest : TerminalFrame) :
    (t.consumeUpdates dest).2.2 = t.frame.flagged ∧
      (t.frame.flagged = true → t.consumeUpdates dest = ({ t with frame := t.frame.wiped }, t.frame, true)) ∧
      (t.frame.flagged = false → t.consumeUpdates dest = (t, dest, false)) := by
  unfold consumeUpdates flagged
  cases h : t.frame.dirty || t.frame.clearRequested with
  | true => exact ⟨rfl, fun _ => rfl, fun hf => Bool.noConfusion hf⟩
  | false => exact ⟨rfl, fun hf => Bool.noConfusion hf, fun _ => rfl⟩

theorem sound_iff (p : Painter) :
    Sound p ↔
      ((p.terminal.frame.cursor, p.terminal.frame.cursorVisible) ≠ (p.shown.cursor, p.shown.cursorVisible) →
        p.terminal.frame.flagged = true) ∧
      ∀ x y, x < p.terminal.frame.cols → y < p.terminal.frame.rows →
        p.terminal.frame.cellAt x y ≠ p.shown.cellAt x y →
        p.terminal.frame.rowMarked y ∧ p.terminal.frame.flagged = true := by
  obtain ⟨hflag, htrue, -⟩ := consumeUpdates_spec p.terminal p.shown
  unfold Sound
  rw [hflag]
  refine and_congr Iff.rfl (forall_congr' fun x => forall_congr' fun y => forall_congr' fun _ =>
    forall_congr' fun _ => forall_congr' fun _ => ?_)
  rw [and_comm]
  refine and_congr_left fun hf => ?_
  rw [htrue hf]

/-- What differs from the last copy is marked. -/
theorem Tracked.sound (h : Tracked p) : Sound p := by
  rw [sound_iff]
  rcases h.marks with hm | hc
  · refine ⟨hm.cursor, fun x y hx hy hne => ?_⟩
    exact hm.cell x y (hm.cols ▸ hx) (hm.rows ▸ hy) hne
  · exact ⟨fun _ => hc.flagged, fun x y _ hy _ => ⟨hc.rows y hy, hc.flagged⟩⟩

/-- A step that marks what it changes keeps everything tracked. -/
theorem Tracked.of_marks (h : Tracked p) {t : ClientTerminal} (hm : Marks p.terminal.frame t.frame) :
    Tracked { p with terminal := t } :=
  ⟨hm.sized h.sized, h.marks.imp (fun hs => hs.trans hm) fun hc => hc.marks hm⟩

/-- STEP: drawing on a tracked frame leaves it tracked if the flags cover it, and unsound if not. -/
theorem Tracked.paint (h : Tracked p) (strokes : List Stroke) (cur : ℕ × ℕ) (e : LocalEchoEngine) :
    (Covered p.terminal.frame strokes cur →
      Tracked { p with terminal := ⟨p.terminal.frame.paint strokes cur, e⟩ }) ∧
    (Sound { p with terminal := ⟨p.terminal.frame.paint strokes cur, e⟩ } →
      Covered p.terminal.frame strokes cur) := by
  constructor
  · intro hc
    exact h.of_marks (t := ⟨p.terminal.frame.paint strokes cur, e⟩) (hc.marks h.sized)
  · intro hs
    rw [sound_iff] at hs
    rcases h.marks with hm | hc
    · -- a change of the last copy's content is seen now, one back to it was marked before
      refine ⟨fun hne => ?_, fun x y c hx hy hl hne => ?_⟩
      · by_cases hback : (p.terminal.frame.cursor, p.terminal.frame.cursorVisible) =
            (p.shown.cursor, p.shown.cursorVisible)
        · refine hs.1 fun heq => hne ?_
          exact (congrArg Prod.fst heq).trans (congrArg Prod.fst hback).symm
        · exact hm.cursor hback
      · by_cases hback : p.terminal.frame.cellAt x y = p.shown.cellAt x y
        · refine hs.2 x y hx hy fun heq => hne ?_
          rw [cellAt_paint h.sized strokes cur hx hy, hl, Option.some_or] at heq
          exact hback.trans heq.symm
        · exact hm.cell x y (hm.cols ▸ hx) (hm.rows ▸ hy) hback
    · exact ⟨fun _ => hc.flagged, fun x y c _ hy _ _ => ⟨hc.rows y hy, hc.flagged⟩⟩

theorem setReconnecting_marks {t t' : ClientTerminal} {reconnecting : Bool}
    (h : t.setReconnecting reconnecting = some t') : Marks t.frame t'.frame := by
  obtain rfl | rfl | ⟨hy, rfl⟩ := setReconnecting_cases h
  · exact .refl _
  · exact ⟨rfl, rfl, rfl, rfl, fun _ => id, fun _ => rfl, id, fun _ _ _ _ h => absurd rfl h, fun _ => rfl⟩
  · refine ⟨rfl, rfl, rfl, List.length_set, fun z hz => ?_, fun _ => rfl, id,
      fun _ _ _ _ h => absurd rfl h, fun _ => rfl⟩
    by_cases hzy : t.frame.rows - 1 = z
    · subst hzy
      exact List.getElem?_set_self hy
    · exact (List.getElem?_set_ne hzy).trans hz

/-- A step that changes no more than telemetry and raises no flag but `dirty`. -/
theorem marks_of_dirty {f f' : TerminalFrame} (hcols : f'.cols = f.cols) (hrows : f'.rows = f.rows)
    (hcells : f'.cellCache = f.cellCache) (hrow : f'.rowDirty = f.rowDirty)
    (hclear : f'.clearRequested = f.clearRequested)
    (hcursor : (f'.cursor, f'.cursorVisible) = (f.cursor, f.cursorVisible))
    (hdirty : f.dirty = true → f'.dirty = true) : Marks f f' := by
  refine ⟨hcols, hrows, by rw [hcells], by rw [hrow], fun y hy => ?_, fun hf => ?_, fun hf => ?_,
    fun x y _ _ hne => ?_, fun hne => absurd hcursor hne⟩
  · rw [rowMarked, hrow]
    exact hy
  · rw [flagged, Bool.or_eq_true] at hf ⊢
    exact hf.imp hdirty fun hc => hclear.trans hc
  · exact hclear.trans hf
  · exact absurd (by rw [cellAt, cellAt, hcells, hcols]) hne

theorem step_of_perform (hop : op.isQuiet = false) {t : ClientTerminal}
    (h : p.terminal.perform op = some t) : p.step op = some { p with terminal := t } := by
  cases op with
  | consumeUpdates => cases hop
  | _ => exact congrArg (Option.map fun terminal => { p with terminal }) h

/-- INVERSION: an operation that draws never panics, and paints over a tracked frame. -/
theorem Tracked.draws (h : Tracked p) (hop : op.isQuiet = false) :
    ∃ (q : Painter) (strokes : List Stroke) (cur : ℕ × ℕ) (e : LocalEchoEngine), Tracked q ∧
      p.step op = some { q with terminal := ⟨q.terminal.frame.paint strokes cur, e⟩ } ∧
      (Covers p op ↔ Covered q.terminal.frame strokes cur) := by
  cases op with
  | predictInput bytes clientSeq =>
    obtain ⟨old, heq⟩ := predictInput_eq h.sized bytes clientSeq
    exact ⟨p, _, _, _, h, step_of_perform hop heq, Iff.rfl⟩
  | acknowledge ack =>
    obtain ⟨e, heq, -⟩ := acknowledge_eq h.sized ack
    exact ⟨p, _, _, _, h, step_of_perform hop heq, Iff.rfl⟩
  | applyFrame newState serverSeq =>
    obtain ⟨f, e, hf, hsized, hm, heq, -⟩ := applyFrame_eq h.sized newState serverSeq
    have hq : Tracked { p with terminal := ⟨{ f with lastSeq := serverSeq }, e⟩ } := by
      refine ⟨⟨hsized.cells, hsized.rowDirty⟩, ?_⟩
      rcases hm with hm | hc
      · refine h.marks.imp (fun hs => ?_) fun hc => ?_
        · have hlast := hs.trans hm
          exact ⟨hlast.1, hlast.2, hlast.3, hlast.4, hlast.5, hlast.6, hlast.7, hlast.8, hlast.9⟩
        · exact ⟨(hc.marks hm).1, (hc.marks hm).2⟩
      · exact .inr ⟨hc.1, hc.2⟩
    refine ⟨_, _, _, _, hq, step_of_perform hop heq, fun hc => hc f hf, fun hc f' hf' => ?_⟩
    obtain rfl := Option.some.inj (hf.symm.trans hf')
    exact hc
  | abortPrediction =>
    exact ⟨p, _, _, _, h, step_of_perform hop (abortPrediction_eq h.sized), Iff.rfl⟩
  | _ => cases hop

/-- Every other operation keeps the frame tracked. -/
theorem Tracked.quiet (h : Tracked p) (hop : op.isQuiet = true) (hs : p.step op = some p') :
    Tracked p' := by
  have hor : ∀ a b : Bool, a = true → (a || b) = true := fun a b ha => by rw [ha, Bool.true_or]
  cases op with
  | predictInput bytes clientSeq => cases hop
  | acknowledge ack => cases hop
  | applyFrame newState serverSeq => cases hop
  | abortPrediction => cases hop
  | setReconnecting reconnecting =>
    obtain ⟨t, ht, rfl⟩ := Option.map_eq_some_iff.mp hs
    exact h.of_marks (setReconnecting_marks ht)
  | toggleOverlay =>
    cases hs
    exact h.of_marks (marks_of_dirty rfl rfl rfl rfl rfl rfl fun _ => rfl)
  | markDirty =>
    cases hs
    exact h.of_marks (marks_of_dirty rfl rfl rfl rfl rfl rfl fun _ => rfl)
  | recordRttLoss rttMs lossPct =>
    cases hs
    exact h.of_marks (marks_of_dirty rfl rfl rfl rfl rfl rfl (hor _ _))
  | recordBandwidthCompression kbS ratio =>
    cases hs
    exact h.of_marks (marks_of_dirty rfl rfl rfl rfl rfl rfl (hor _ _))
  | recordFps fps =>
    cases hs
    exact h.of_marks (marks_of_dirty rfl rfl rfl rfl rfl rfl (hor _ _))
  | consumeUpdates =>
    cases hs
    obtain ⟨-, htrue, hfalse⟩ := consumeUpdates_spec p.terminal p.shown
    cases hf : p.terminal.frame.flagged with
    | true =>
      rw [htrue hf]
      exact ⟨⟨h.sized.cells, by simpa [wiped] using h.sized.rowDirty⟩, .inl (.refl _)⟩
    | false =>
      rw [hfalse hf]
      exact h

/-- STEP: an operation whose drawing is covered keeps the frame tracked. -/
theorem Tracked.step (h : Tracked p) (hc : Covers p op) (hs : p.step op = some p') : Tracked p' := by
  cases hop : op.isQuiet with
  | true => exact h.quiet hop hs
  | false =>
    obtain ⟨q, strokes, cur, e, hq, heq, hcov⟩ := h.draws hop
    obtain rfl := Option.some.inj (heq.symm.trans hs)
    exact (hq.paint strokes cur e).1 (hcov.mp hc)

/-- STEP: an operation after which every difference is marked is covered. -/
theorem Tracked.covers (h : Tracked p) (hs : ∀ p', p.step op = some p' → Sound p') : Covers p op := by
  cases hop : op.isQuiet with
  | true => cases op <;> trivial
  | false =>
    obtain ⟨q, strokes, cur, e, hq, heq, hcov⟩ := h.draws hop
    exact hcov.mpr ((hq.paint strokes cur e).2 (hs _ heq))

/-- DIRTY TRACKING: after a `consume_updates` that handed a copy out, over any sequence of operations,
    every difference from the last copy makes the next call hand out another one with the row marked,
    exactly if whatever local echo draws is covered by flags that are up already. -/
theorem dirty_tracking_iff {t t' : ClientTerminal} {dest copy : TerminalFrame} (ht : t.frame.Sized)
    (hconsume : t.consumeUpdates dest = (t', copy, true)) (ops : List MirrorOp) :
    StepsMeet step (fun p op => ∀ p', p.step op = some p' → Sound p') ⟨t', copy⟩ ops ↔
      StepsMeet step Covers ⟨t', copy⟩ ops := by
  have hstart : Tracked ⟨t', copy⟩ := by
    obtain ⟨hflag, htrue, -⟩ := consumeUpdates_spec t dest
    rw [hconsume] at hflag htrue
    obtain ⟨rfl, heq⟩ := Prod.mk.inj (htrue hflag.symm)
    obtain ⟨rfl, -⟩ := Prod.mk.inj heq
    exact ⟨⟨ht.cells, by simpa [wiped] using ht.rowDirty⟩, .inl (.refl _)⟩
  constructor
  · exact StepsMeet.imp_of_invariant (fun p op p' hp hs hstep => hp.step (hp.covers hs) hstep)
      (fun p op hp hs => hp.covers hs) hstart
  · exact StepsMeet.imp_of_invariant (fun p op p' hp hc hstep => hp.step hc hstep)
      (fun p op hp hc p' hstep => (hp.step hc hstep).sound) hstart

/-- A keystroke drawn on a frame that was just handed out stays unpainted. -/
theorem keystroke_unpainted :
    ∃ (t' t'' : ClientTerminal) (copy : TerminalFrame),
      (ClientTerminal.new 3 1).consumeUpdates (TerminalFrame.new 3 1) = (t', copy, true) ∧
      t'.perform (.predictInput [0x61] 1) = some t'' ∧ t''.frame.cellAt 0 0 ≠ copy.cellAt 0 0 ∧
      (t''.consumeUpdates copy).2.2 = false ∧
      ¬ StepsMeet step (fun p op => ∀ p', p.step op = some p' → Sound p') ⟨t', copy⟩
        [.predictInput [0x61] 1] := by
  refine ⟨_, _, _, rfl, rfl, by decide, rfl, fun h => ?_⟩
  have hnext := ((h.1 _ rfl).2 0 0 (by decide) (by decide) (by decide)).1
  revert hnext
  decide

/-- A new grid marks what it changes, and with it the keystroke drawn on top. -/
theorem dirty_tracking_new_grid :
    ∃ (t' : ClientTerminal) (copy : TerminalFrame),
      (ClientTerminal.new 3 1).consumeUpdates (TerminalFrame.new 3 1) = (t', copy, true) ∧
      StepsMeet step (fun p op => ∀ p', p.step op = some p' → Sound p') ⟨t', copy⟩
        [.applyFrame (GridState.blank 2 1) 1, .predictInput [0x61] 1] := by
  refine ⟨_, _, rfl, ?_⟩
  refine (dirty_tracking_iff (t := ClientTerminal.new 3 1) ⟨rfl, rfl⟩ rfl _).mpr ?_
  refine ⟨fun f _ => ⟨fun h => absurd rfl h, fun x y c _ _ hl => nomatch hl⟩, fun p hp => ?_⟩
  cases hp
  refine ⟨⟨fun _ => rfl, fun x y c _ hy _ _ => ⟨?_, rfl⟩⟩, fun _ _ => trivial⟩
  obtain rfl : y = 0 := Nat.lt_one_iff.mp hy
  rfl

end Painter

end Rumsh.Client
