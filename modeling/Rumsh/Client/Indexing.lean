import Rumsh.Client.Reception
import Rumsh.Client.Renderer

/-! Indices into the mirror and the back buffer.

    Every operation keeps `cell_cache` and `row_dirty` at the size of the screen, in the live frame and in
    the painter's copy, so every index is in bounds. The exception is the one place that names a row
    without asking whether there is one: taking the banner away marks row 0 of a screen without rows. -/

namespace Rumsh.Client
open Rumsh.Schemes Rumsh.Protocol TerminalFrame

/-! ### The painter -/

namespace ClientTerminalRenderer
variable {f f' : TerminalFrame}

/-- What a paint keeps of the back buffer. -/
structure SameSize (f f' : TerminalFrame) : Prop where
  cols : f'.cols = f.cols
  rows : f'.rows = f.rows
  cellCache : f'.cellCache = f.cellCache
  rowDirty : f'.rowDirty.length = f.rowDirty.length

theorem SameSize.sized (h : SameSize f f') (hf : f.Sized) : f'.Sized :=
  ⟨by rw [h.cellCache, h.cols, h.rows, hf.cells], by rw [h.rowDirty, h.rows, hf.rowDirty]⟩

theorem paint_sameSize {out : List PaintCommand} {b : Bool} (h : paint f = .ok (f', out, b)) :
    SameSize f f' := by
  obtain ⟨_, _, rfl, hlen⟩ := paint_frame h
  exact ⟨rfl, rfl, rfl, hlen⟩

/-- PAINT: no index is out of bounds, and the back buffer keeps its size. -/
theorem paint_index (hf : f.Sized) : paint f ≠ .error .index ∧
    ∀ f' out b, paint f = .ok (f', out, b) → f'.Sized := by
  refine ⟨fun h => ?_, fun f' out b h => (paint_sameSize h).sized hf⟩
  obtain ⟨y, hy, ⟨hrow, -⟩ | hstop⟩ := paint_stops h
  · exact absurd (hf.rowDirty ▸ hy) (Nat.not_lt.mpr hrow)
  · cases hstop with
    | index hx hcell =>
      exact absurd (hf.index_lt hx hy) (Nat.not_lt.mpr (List.getElem?_eq_none_iff.mp hcell))

end ClientTerminalRenderer

/-! ### The mirror -/

namespace ClientTerminal
open LocalEchoEngine
variable {t : ClientTerminal}

/-- The banner is taken from a screen without rows. -/
def MarksNoRow (t : ClientTerminal) (op : MirrorOp) : Prop :=
  op = .setReconnecting false ∧ t.frame.reconnecting = true ∧ t.frame.rows = 0

/-- An operation on the mirror panics only there. -/
theorem perform_eq_none_iff (ht : t.frame.Sized) (op : MirrorOp) :
    t.perform op = none ↔ MarksNoRow t op := by
  have hsome : ∀ {op' : MirrorOp} {t'}, t.perform op' = some t' → op' ≠ .setReconnecting false →
      (t.perform op' = none ↔ MarksNoRow t op') := by
    intro op' t' h hne
    exact iff_of_false (by rw [h]; simp) fun hm => hne hm.1
  cases op with
  | predictInput bytes clientSeq =>
    obtain ⟨old, h⟩ := predictInput_eq ht bytes clientSeq
    exact hsome h nofun
  | acknowledge ack =>
    obtain ⟨e, h, -⟩ := acknowledge_eq ht ack
    exact hsome h nofun
  | applyFrame newState serverSeq =>
    obtain ⟨f, e, -, -, -, h, -⟩ := applyFrame_eq ht newState serverSeq
    exact hsome h nofun
  | abortPrediction => exact hsome (abortPrediction_eq ht) nofun
  | setReconnecting reconnecting =>
    show t.setReconnecting reconnecting = none ↔ _
    have hrow : t.frame.rows ≤ t.frame.rows - 1 ↔ t.frame.rows = 0 := by omega
    rw [setReconnecting_eq_none_iff, ht.rowDirty, hrow, MarksNoRow, MirrorOp.setReconnecting.injEq]
  | toggleOverlay => exact hsome rfl nofun
  | markDirty => exact hsome rfl nofun
  | recordRttLoss rttMs lossPct => exact hsome rfl nofun
  | recordBandwidthCompression kbS ratio => exact hsome rfl nofun
  | recordFps fps => exact hsome rfl nofun
  | consumeUpdates => exact hsome rfl nofun

end ClientTerminal

/-! ### Both together -/

/-- The mirror, and the renderer's back buffer. -/
structure Screen where
  terminal : ClientTerminal
  backBuffer : TerminalFrame

inductive ScreenOp where
  | perform (op : MirrorOp)
  | paint

namespace Screen

/-- A mirror of this size, and a new renderer. -/
def new (cols rows : ℕ) : Screen :=
  { terminal := ClientTerminal.new cols rows, backBuffer := TerminalFrame.new 0 0 }

/-- An operation on the mirror; `consume_updates` goes to the back buffer. -/
def perform (s : Screen) (op : MirrorOp) : Except PaintStop Screen :=
  match op with
  | .consumeUpdates =>
    let (terminal, backBuffer, _) := s.terminal.consumeUpdates s.backBuffer
    .ok { terminal, backBuffer }
  | op =>
    match s.terminal.perform op with
    | none => .error .index
    | some terminal => .ok { s with terminal }

def step (s : Screen) : ScreenOp → Except PaintStop Screen
  | .perform op => s.perform op
  | .paint => (ClientTerminalRenderer.paint s.backBuffer).map fun r => { s with backBuffer := r.1 }

/-- The screen after the operations, if each of them returns. -/
def run (s : Screen) : List ScreenOp → Except PaintStop Screen
  | [] => .ok s
  | op :: ops => (s.step op).bind fun s' => s'.run ops

/-- Both frames have the buffers of their size. -/
structure Sized (s : Screen) : Prop where
  frame : s.terminal.frame.Sized
  backBuffer : s.backBuffer.Sized

/-- Every operation but one is in bounds. -/
def InBounds (s : Screen) : ScreenOp → Prop
  | .perform op => ¬ ClientTerminal.MarksNoRow s.terminal op
  | .paint => True

variable {s s' : Screen}

theorem perform_consumeUpdates (s : Screen) : s.perform .consumeUpdates =
    .ok { terminal := (s.terminal.consumeUpdates s.backBuffer).1
          backBuffer := (s.terminal.consumeUpdates s.backBuffer).2.1 } := rfl

theorem perform_eq {op : MirrorOp} (hop : op ≠ .consumeUpdates) : s.perform op =
    match s.terminal.perform op with
    | none => .error .index
    | some terminal => .ok { s with terminal } := by
  cases op with
  | consumeUpdates => exact absurd rfl hop
  | _ => rfl

/-- What `consume_updates` hands out has its size. -/
theorem sized_consumeUpdates (h : s.Sized) : (s.terminal.consumeUpdates s.backBuffer).2.1.Sized := by
  unfold ClientTerminal.consumeUpdates
  split
  · exact h.frame
  · exact h.backBuffer

/-- STEP: no index out of bounds, or the one; and what an operation leaves has its size. -/
theorem step_spec (h : s.Sized) (op : ScreenOp) :
    (s.step op = .error .index ↔ ¬ s.InBounds op) ∧ ∀ s', s.step op = .ok s' → s'.Sized := by
  cases op with
  | paint =>
    obtain ⟨hne, hok⟩ := ClientTerminalRenderer.paint_index h.backBuffer
    rw [step]
    cases hp : ClientTerminalRenderer.paint s.backBuffer with
    | error e =>
      rw [hp] at hne
      refine ⟨iff_of_false (fun he => ?_) fun hn => hn trivial, fun s' hs => (nomatch hs)⟩
      cases he
      exact hne rfl
    | ok r =>
      refine ⟨iff_of_false nofun fun hn => hn trivial, fun s' hs => ?_⟩
      obtain ⟨f, out, b⟩ := r
      cases hs
      exact ⟨h.frame, hok _ _ _ hp⟩
  | perform op =>
    rw [step, InBounds, not_not]
    by_cases hcons : op = .consumeUpdates
    · subst hcons
      rw [perform_consumeUpdates]
      refine ⟨iff_of_false nofun fun hm => (nomatch hm.1), fun s' hs => ?_⟩
      obtain rfl := Except.ok.inj hs
      exact ⟨(ClientTerminal.consumeUpdates_sameScreen s.terminal s.backBuffer).sized h.frame,
        sized_consumeUpdates h⟩
    · rw [← ClientTerminal.perform_eq_none_iff h.frame op, perform_eq hcons]
      cases ht : s.terminal.perform op with
      | none => exact ⟨iff_of_true rfl rfl, fun s' hs => (nomatch hs)⟩
      | some t =>
        refine ⟨iff_of_false nofun nofun, fun s' hs => ?_⟩
        obtain rfl := Except.ok.inj hs
        exact ⟨ClientTerminal.perform_sized h.frame ht, h.backBuffer⟩

/-- RUN: from buffers of their size, no index is out of bounds exactly if each operation is in bounds where
    it is performed, and every screen reached has its size. -/
theorem run_spec (ops : List ScreenOp) : ∀ {s : Screen}, s.Sized →
    (s.run ops ≠ .error .index ↔ StepsMeet (fun s op => (s.step op).toOption) InBounds s ops) ∧
      ∀ s', s.run ops = .ok s' → s'.Sized := by
  induction ops with
  | nil =>
    intro s h
    refine ⟨iff_of_true nofun trivial, fun s' hs => ?_⟩
    cases hs
    exact h
  | cons op ops ih =>
    intro s h
    obtain ⟨hindex, hsized⟩ := step_spec h op
    rw [run, StepsMeet]
    cases hstep : s.step op with
    | error e =>
      rw [hstep] at hindex
      refine ⟨?_, fun s' hs => (nomatch hs)⟩
      show Except.error e ≠ Except.error PaintStop.index ↔ _
      rw [ne_eq, hindex, not_not]
      exact ⟨fun hb => ⟨hb, fun s' hs => (nomatch hs)⟩, And.left⟩
    | ok s₁ =>
      obtain ⟨hrun, hsizes⟩ := ih (hsized s₁ hstep)
      have hb : s.InBounds op := by
        by_contra hn
        rw [hstep] at hindex
        exact nomatch hindex.mpr hn
      refine ⟨hrun.trans ⟨fun hm => ⟨hb, fun s' hs => ?_⟩, fun hm => hm.2 s₁ rfl⟩, hsizes⟩
      obtain rfl := Option.some.inj hs
      exact hm

theorem sized_new (cols rows : ℕ) : (Screen.new cols rows).Sized :=
  ⟨⟨List.length_replicate, List.length_replicate⟩, ⟨List.length_replicate, List.length_replicate⟩⟩

/-- IN BOUNDS: after any operations, up to each point of them, no index is out of bounds and both frames have
    the buffers of their size, exactly if none of them takes the banner from a screen without rows. -/
theorem indices_in_bounds_iff (cols rows : ℕ) (ops : List ScreenOp) :
    (∀ before, before <+: ops → (Screen.new cols rows).run before ≠ .error .index ∧
      ∀ s, (Screen.new cols rows).run before = .ok s → s.Sized) ↔
    StepsMeet (fun s op => (s.step op).toOption) InBounds (Screen.new cols rows) ops := by
  have hspec := fun before => run_spec before (sized_new cols rows)
  constructor
  · intro h
    exact (hspec ops).1.mp (h ops List.prefix_rfl).1
  · rintro hm before ⟨rest, rfl⟩
    exact ⟨(hspec before).1.mpr hm.left_of_append, (hspec before).2⟩

/-- The connection is lost and comes back on a terminal that reports no rows. -/
theorem banner_without_rows :
    (Screen.new 80 0).run [.perform (.setReconnecting true), .perform (.setReconnecting false)] =
      .error .index ∧
    ¬ ∀ cols rows ops, (Screen.new cols rows).run ops ≠ .error .index := by
  have hrun : (Screen.new 80 0).run [.perform (.setReconnecting true), .perform (.setReconnecting false)] =
      .error .index := rfl
  exact ⟨hrun, fun h => h 80 0 _ hrun⟩

end Screen

end Rumsh.Client
