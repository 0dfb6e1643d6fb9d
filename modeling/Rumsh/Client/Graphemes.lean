import Rumsh.Client.Predictions
import Rumsh.Client.Rollback
import Rumsh.Client.Renderer
import Rumsh.Protocol.Bincode

/-! The text of a cell, from the datagram to the painter.

    The decoder takes any length byte and any fifteen bytes, and nothing behind it looks at them before
    `as_str` does. So each cell the client keeps is one a frame brought, a blank one or a keystroke, and
    the painter can read them all exactly if every frame brings text. -/

namespace Rumsh.Client
open Rumsh.Schemes Rumsh.Protocol TerminalFrame

/-! ### The mirror -/

namespace LocalEchoEngine
variable {P : LocalCellData → Prop} {f f' : TerminalFrame} {e e' : LocalEchoEngine}

/-- The cells shown and the cells remembered. -/
structure Holds (P : LocalCellData → Prop) (e : LocalEchoEngine) (f : TerminalFrame) : Prop where
  shown : ∀ c ∈ f.cellCache, P c
  old : ∀ p ∈ e.unconfirmedInputs, ∀ o ∈ p.oldCells, P o.2.2

/-- Of a drawing: the screen and the cells it covered. -/
def Drawn (P : LocalCellData → Prop) (d : Drawing) : Prop :=
  (∀ c ∈ d.1.cellCache, P c) ∧ ∀ o ∈ d.2, P o.2.2

theorem Drawn.drawCell {d d' : Drawing} (h : Drawn P d) {x y : ℕ} {cell : LocalCellData} (hcell : P cell)
    (hd : drawCell d x y cell = some d') : Drawn P d' := by
  obtain ⟨f, old⟩ := d
  unfold LocalEchoEngine.drawCell at hd
  dsimp only at hd
  split at hd
  · cases hd
  · rename_i prev hprev
    cases hd
    refine ⟨fun c hc => ?_, fun o ho => ?_⟩
    · rcases List.mem_or_eq_of_mem_set hc with hc | rfl
      · exact h.1 c hc
      · exact hcell
    · dsimp only at ho
      split at ho
      · exact h.2 o ho
      · rcases List.mem_append.mp ho with ho | ho
        · exact h.2 o ho
        · rw [List.mem_singleton.mp ho]
          exact h.1 prev (List.mem_of_getElem? hprev)

section Draw
variable (hblank : P blankCell) (hglyph : ∀ b : UInt8, 0x20 ≤ b → b < 0x7f → P (glyph b))
include hblank hglyph

/-- STEP: a byte draws a blank cell or its own glyph. -/
theorem Drawn.drawByte {d d' : Drawing} (h : Drawn P d) {b : UInt8} (hd : drawByte d b = some d') :
    Drawn P d' := by
  obtain ⟨f, old⟩ := d
  unfold LocalEchoEngine.drawByte at hd
  dsimp only at hd
  split_ifs at hd
  · cases hd
    exact h
  · cases hd
    exact h
  · exact Drawn.drawCell (d := ({ f with cursorX := f.cursorX - 1 }, old)) h hblank hd
  · cases hd
    exact h
  · cases hd
    exact h
  · rename_i hb _
    obtain ⟨⟨f', old'⟩, hdraw, heq⟩ := Option.map_eq_some_iff.mp hd
    have hdrawn := h.drawCell (hglyph b hb.1 hb.2) hdraw
    dsimp only at heq
    split at heq
    · cases heq
      exact hdrawn
    · cases heq
      exact hdrawn
  · cases hd
    exact h
  · cases hd
    exact h

/-- RUN: a batch. -/
theorem Drawn.drawBytes {bytes : Bytes} : ∀ {d d' : Drawing}, Drawn P d →
    bytes.foldlM LocalEchoEngine.drawByte d = some d' → Drawn P d' := by
  induction bytes with
  | nil =>
    intro d d' h hd
    cases hd
    exact h
  | cons b bytes ih =>
    intro d d' h hd
    obtain ⟨d₁, h₁, hd⟩ := Option.bind_eq_some_iff.mp hd
    exact ih (h.drawByte hblank hglyph h₁) hd

theorem Holds.applyKeystrokes (h : Holds P e f) {bytes : Bytes} {seqNum : ℕ}
    (ha : e.applyKeystrokes f bytes seqNum = some (e', f')) : Holds P e' f' := by
  obtain ⟨⟨f₁, old⟩, hd, heq⟩ := Option.map_eq_some_iff.mp ha
  obtain ⟨hshown, hold⟩ := Drawn.drawBytes hblank hglyph (d := (f, [])) ⟨h.shown, nofun⟩ hd
  cases heq
  refine ⟨hshown, fun p hp => ?_⟩
  rcases List.mem_append.mp hp with hp | hp
  · exact h.old p hp
  · rw [List.mem_singleton.mp hp]
    exact hold

/-- RUN: the batches that are drawn again. -/
theorem Holds.reconcileFrame (h : Holds P e f) {ackSeq : ℕ}
    (ha : e.reconcileFrame f ackSeq = some (e', f')) : Holds P e' f' := by
  unfold LocalEchoEngine.reconcileFrame at ha
  dsimp only at ha
  generalize (e.unconfirmedInputs.dropWhile _) = entries at ha
  have hstart : Holds P { e with unconfirmedInputs := [] } f := ⟨h.shown, nofun⟩
  generalize ({ e with unconfirmedInputs := [] } : LocalEchoEngine) = e₀ at ha hstart
  clear h
  induction entries generalizing e₀ f with
  | nil =>
    cases ha
    exact hstart
  | cons entry entries ih =>
    obtain ⟨⟨e₁, f₁⟩, h₁, ha⟩ := Option.bind_eq_some_iff.mp ha
    exact ih e₁ ha (hstart.applyKeystrokes hblank hglyph h₁)

end Draw

/-- RUN: the cells of one batch are put back. -/
theorem restoreCells_cells (old : List (ℕ × ℕ × LocalCellData)) : ∀ {f f' : TerminalFrame},
    (∀ c ∈ f.cellCache, P c) → (∀ o ∈ old, P o.2.2) → old.foldlM restoreCell f = some f' →
      ∀ c ∈ f'.cellCache, P c := by
  induction old with
  | nil =>
    intro f f' hf _ h
    cases h
    exact hf
  | cons o old ih =>
    intro f f' hf hold h
    obtain ⟨ho, hold⟩ := List.forall_mem_cons.mp hold
    obtain ⟨f₁, h₁, h⟩ := Option.bind_eq_some_iff.mp h
    refine ih (fun c hc => ?_) hold h
    obtain ⟨x, y, cell⟩ := o
    unfold restoreCell at h₁
    dsimp only at h₁
    split_ifs at h₁
    · cases h₁
      rcases List.mem_or_eq_of_mem_set hc with hc | rfl
      · exact hf c hc
      · exact ho
    · cases h₁
      exact hf c hc

theorem Holds.abort (h : Holds P e f) (ha : e.abort f = some (e', f')) : Holds P e' f' := by
  obtain ⟨f₁, hrun, heq⟩ := Option.map_eq_some_iff.mp ha
  cases heq
  refine ⟨?_, nofun⟩
  have hold : ∀ p ∈ e.unconfirmedInputs.reverse, ∀ o ∈ p.oldCells, P o.2.2 := fun p hp =>
    h.old p (List.mem_reverse.mp hp)
  have hshown := h.shown
  clear h ha
  generalize e.unconfirmedInputs.reverse = entries at hrun hold
  induction entries generalizing f with
  | nil =>
    cases hrun
    exact hshown
  | cons entry entries ih =>
    obtain ⟨hentry, hold⟩ := List.forall_mem_cons.mp hold
    obtain ⟨f₂, h₂, hrun⟩ := Option.bind_eq_some_iff.mp hrun
    refine ih (restoreCells_cells entry.oldCells.reverse (by exact hshown) (fun o ho => ?_) h₂) hrun hold
    exact hentry o (List.mem_reverse.mp ho)

end LocalEchoEngine

namespace ClientTerminal
open LocalEchoEngine
variable {t t' : ClientTerminal}

/-- Every cell the mirror shows or remembers can be read. -/
def Legible (t : ClientTerminal) : Prop :=
  Holds (fun c => c.graphemes.Readable) t.echoEngine t.frame

theorem readable_glyph (b : UInt8) (_ : 0x20 ≤ b) (hb : b < 0x7f) : (glyph b).graphemes.Readable := by
  refine readable_ascii ?_
  have : b.toNat < 127 := UInt8.lt_iff_toNat_lt.mp hb
  omega

theorem Legible.sameScreen (h : Legible t) (hs : SameScreen t t') : Legible t' :=
  ⟨hs.cellCache ▸ h.shown, hs.echoEngine ▸ h.old⟩

theorem Legible.predictInput (h : Legible t) {bytes : Bytes} {clientSeq : ℕ}
    (hp : t.predictInput bytes clientSeq = some t') : Legible t' := by
  obtain ⟨⟨e, f⟩, ha, rfl⟩ := Option.map_eq_some_iff.mp hp
  exact h.applyKeystrokes readable_blankCell readable_glyph ha

theorem Legible.acknowledge (h : Legible t) {ack : ℕ} (ha : t.acknowledge ack = some t') : Legible t' := by
  obtain ⟨⟨e, f⟩, hr, rfl⟩ := Option.map_eq_some_iff.mp ha
  exact h.reconcileFrame readable_blankCell readable_glyph hr

theorem Legible.abortPrediction (h : Legible t) (ha : t.abortPrediction = some t') : Legible t' := by
  obtain ⟨⟨e, f⟩, hr, rfl⟩ := Option.map_eq_some_iff.mp ha
  exact h.abort hr

/-- A grid that can be read goes on the screen. -/
theorem Legible.applyFrame (h : Legible t) {g : GridState} {seq : ℕ}
    (hg : ∀ c ∈ g.cells, c.graphemes.Readable) (ha : t.applyFrame g seq = some t') : Legible t' := by
  obtain ⟨f, hf, ha⟩ := Option.bind_eq_some_iff.mp ha
  obtain ⟨⟨e, f'⟩, hr, rfl⟩ := Option.map_eq_some_iff.mp ha
  have hcells := updateFromGridState_cells hf readable_blankCell h.shown hg
  have hstart : Holds (fun c => c.graphemes.Readable) t.echoEngine { f with lastSeq := seq } :=
    ⟨hcells, h.old⟩
  exact hstart.reconcileFrame readable_blankCell readable_glyph hr

end ClientTerminal

/-! ### The session -/

namespace MirrorSession
open ClientTerminal
variable {C : Type} [PacketCodec C] {s s' : MirrorSession C}

/-- Every frame the event brings has only cells whose text the constructor made. -/
def BringsMade (s : MirrorSession C) (ev : MirrorEvent) : Prop :=
  ∀ q update, s.arrival ev = some (q, .frame update) → ∀ c ∈ update.cells, c.graphemes.Made

/-- Every frame the event brings has only cells that can be read. -/
def OpensReadable (s : MirrorSession C) (ev : MirrorEvent) : Prop :=
  ∀ q update, s.arrival ev = some (q, .frame update) → ∀ c ∈ update.cells, c.graphemes.Readable

theorem bringsMade_iff {ev : MirrorEvent} : s.BringsMade ev ↔ s.OpensReadable ev := by
  unfold BringsMade OpensReadable
  simp only [made_iff_readable]

/-- Every cell the session keeps can be read. -/
structure Legible (s : MirrorSession C) : Prop where
  mirror : s.mirror.Legible
  history : ∀ e ∈ s.stateHistory, ∀ c ∈ e.2.cells, c.graphemes.Readable

omit [PacketCodec C] in
/-- A patched grid can be read if its reference and the frame can. -/
theorem Legible.gridOf (h : s.Legible) {payload : ServerPayload} {g : GridState}
    (hp : ∀ update, payload = .frame update → ∀ c ∈ update.cells, c.graphemes.Readable)
    (hg : s.gridOf payload = some g) : ∀ c ∈ g.cells, c.graphemes.Readable := by
  cases payload with
  | frame update =>
    obtain ⟨base, hb, hpatch⟩ := Option.bind_eq_some_iff.mp hg
    have hbase : ∀ c ∈ base.cells, c.graphemes.Readable := by
      unfold baseFor at hb
      split at hb
      · cases hb
        intro c hc
        rw [List.eq_of_mem_replicate hc]
        exact readable_blankCell
      · obtain ⟨e, he, rfl⟩ := Option.map_eq_some_iff.mp hb
        exact h.history e (List.mem_of_find?_eq_some he)
    split at hpatch
    · rename_i g' hpatched
      cases hpatch
      exact GridState.patch_cells readable_blankCell hbase (hp update rfl) hpatched
    · cases hpatch
  | _ => cases hg

/-- STEP: an event that brings text leaves text. -/
theorem Legible.step {ev : MirrorEvent} (h : s.Legible) (hev : s.OpensReadable ev)
    (hs : s.step ev = some s') : s'.Legible := by
  refine ⟨?_, ?_⟩
  · by_cases hrecv : ∃ bytes now, ev = .recv bytes now
    · obtain ⟨bytes, now, rfl⟩ := hrecv
      obtain ⟨r, hr⟩ := step_eq_some_iff.mp hs
      change s.feedPacket bytes now = _ at hr
      rcases feedPacket_cases hr with ⟨-, rfl, -⟩ | ⟨packet, payload, stats, -, hopen, -⟩
      · exact h.mirror
      · have hframe : ∀ update, payload = .frame update → ∀ c ∈ update.cells, c.graphemes.Readable := by
          rintro update rfl
          exact hev packet.seqNum update (by simp [arrival, hopen])
        obtain ⟨m, t, hm, hsame, hcase⟩ := feedPacket_mirror hopen hr
        have ht := (h.mirror.acknowledge hm).sameScreen hsame
        rcases hcase with ⟨-, heq⟩ | ⟨-, g, x, hg, hx, ⟨-, heq⟩ | ⟨-, heq⟩⟩
        · exact heq ▸ ht
        · exact heq ▸ ht.applyFrame (h.gridOf hframe hg) hx
        · exact (ht.applyFrame (h.gridOf hframe hg) hx).abortPrediction heq
    · obtain ⟨t, hsame, hcase⟩ := step_mirror (fun bytes now he => hrecv ⟨bytes, now, he⟩) hs
      have ht := h.mirror.sameScreen hsame
      rcases hcase with hsame' | ⟨bytes, -, -, hp⟩ | ⟨u, ha, hsame'⟩
      · exact ht.sameScreen hsame'
      · exact ht.predictInput hp
      · exact (ht.abortPrediction ha).sameScreen hsame'
  · rcases step_cases hs with ⟨-, hhist, -⟩ | ⟨q, p, harr, -, -, ⟨-, hhist, -⟩ | ⟨g, hg, hhist, -⟩⟩
    · rw [hhist]
      exact h.history
    · rw [hhist]
      exact h.history
    · intro e he
      rw [hhist] at he
      rcases List.mem_append.mp (mem_of_mem_capHistory he) with he | he
      · exact h.history e he
      · rw [List.mem_singleton.mp he]
        exact h.gridOf (fun update hu => hev q update (hu ▸ harr)) hg

omit [PacketCodec C] in
theorem legible_new (sid : ℕ) (codec : C) (startServerSeq cols rows : ℕ) (overlay : Bool) (now : Instant) :
    (new sid codec startServerSeq cols rows overlay now).Legible := by
  refine ⟨⟨fun c hc => ?_, nofun⟩, nofun⟩
  rw [List.eq_of_mem_replicate hc]
  exact readable_blankCell

end MirrorSession

/-! ### The painter -/

namespace ClientTerminalRenderer
variable {f : TerminalFrame}

theorem readCell_ne_unreadable {cell : LocalCellData} (h : cell.graphemes.Readable) :
    ∃ r, readCell cell = .ok r := by
  obtain ⟨g, hg, hutf⟩ := h
  exact ⟨_, by rw [readCell, hg]; simp [hutf]; rfl⟩

/-- PAINT: a back buffer that can be read is painted, or runs into something else. -/
theorem paint_readable (hf : ∀ c ∈ f.cellCache, c.graphemes.Readable) :
    paint f ≠ .error .unreadable ∧ ∀ f' out b, paint f = .ok (f', out, b) → f'.cellCache = f.cellCache := by
  refine ⟨fun h => ?_, fun f' out b h => ?_⟩
  · obtain ⟨y, -, ⟨-, he⟩ | hstop⟩ := paint_stops h
    · cases he
    · cases hstop with
      | unreadable hcell hread =>
        obtain ⟨r, hr⟩ := readCell_ne_unreadable (hf _ hcell)
        cases hread.symm.trans hr
  · obtain ⟨_, _, rfl, -⟩ := paint_frame h
    rfl

end ClientTerminalRenderer

/-- The session, and the renderer's back buffer. -/
structure Viewer (C : Type) where
  session : MirrorSession C
  backBuffer : TerminalFrame

namespace Viewer
variable {C : Type} [PacketCodec C] {v v' : Viewer C}

def new (session : MirrorSession C) : Viewer C := { session, backBuffer := TerminalFrame.new 0 0 }

/-- A turn of the main loop; the frame is copied to the back buffer and painted from there. -/
def step (v : Viewer C) : MirrorEvent → Option (Viewer C)
  | .paint _ =>
    let (session, backBuffer, updated) := v.session.copyFrameIfDirty v.backBuffer
    if updated then
      match ClientTerminalRenderer.paint backBuffer with
      | .error _ => none
      | .ok (backBuffer, _, _) => some { session, backBuffer }
    else some { session, backBuffer }
  | ev => (v.session.step ev).map fun session => { v with session }

/-- The painter reads every cell it comes to. -/
def PaintsReadable (v : Viewer C) : MirrorEvent → Prop
  | .paint _ =>
    ClientTerminalRenderer.paint (v.session.copyFrameIfDirty v.backBuffer).2.1 ≠ .error .unreadable
  | _ => True

/-- Every cell the client keeps can be read. -/
structure Legible (v : Viewer C) : Prop where
  session : v.session.Legible
  backBuffer : ∀ c ∈ v.backBuffer.cellCache, c.graphemes.Readable

omit [PacketCodec C] in
theorem Legible.copied (h : v.Legible) :
    ∀ c ∈ (v.session.copyFrameIfDirty v.backBuffer).2.1.cellCache, c.graphemes.Readable := by
  unfold MirrorSession.copyFrameIfDirty ClientTerminal.consumeUpdates
  by_cases hflag : (v.session.mirror.frame.dirty || v.session.mirror.frame.clearRequested) = true
  · rw [if_pos hflag]
    exact h.session.mirror.shown
  · rw [if_neg hflag]
    exact h.backBuffer

/-- STEP: an event that brings text leaves text, in the back buffer as well. -/
theorem Legible.step {ev : MirrorEvent} (h : v.Legible) (hev : v.session.OpensReadable ev)
    (hs : v.step ev = some v') : v'.Legible := by
  by_cases hpaint : ∃ dest, ev = .paint dest
  · obtain ⟨dest, rfl⟩ := hpaint
    have hcopy : v.session.step (.paint v.backBuffer) =
      some (v.session.copyFrameIfDirty v.backBuffer).1 := rfl
    have hnone : v.session.arrival (.paint v.backBuffer) = none := rfl
    have hsession := h.session.step (fun q update harr => nomatch hnone.symm.trans harr) hcopy
    have hcopied := h.copied
    rw [Viewer.step] at hs
    rcases hc : v.session.copyFrameIfDirty v.backBuffer with ⟨session, backBuffer, updated⟩
    rw [hc] at hs hsession hcopied
    dsimp only at hs
    split at hs
    · split at hs
      · cases hs
      · rename_i f out b hp
        obtain rfl := Option.some.inj hs
        refine ⟨hsession, ?_⟩
        rw [(ClientTerminalRenderer.paint_readable hcopied).2 f out b hp]
        exact hcopied
    · obtain rfl := Option.some.inj hs
      exact ⟨hsession, hcopied⟩
  · have hturn : v.step ev = (v.session.step ev).map fun session => { v with session } := by
      cases ev with
      | paint dest => exact absurd ⟨dest, rfl⟩ hpaint
      | _ => rfl
    rw [hturn] at hs
    obtain ⟨session, hsession, rfl⟩ := Option.map_eq_some_iff.mp hs
    exact ⟨h.session.step hev hsession, h.backBuffer⟩

omit [PacketCodec C] in
theorem Legible.paints (h : v.Legible) (ev : MirrorEvent) : v.PaintsReadable ev := by
  cases ev with
  | paint dest => exact (ClientTerminalRenderer.paint_readable h.copied).1
  | _ => trivial

/-- A frame of one cell that says its text is 200 bytes long. -/
def overlongUpdate : FrameUpdate :=
  { refSeq := 0, cols := 1, rows := 1, cursorX := 0, cursorY := 0, cursorVisible := true
    rowUpdates := [{ y := 0, isWrapped := false, cells := [{ x := 0, cell := { blankCell with
      graphemes := { bytes := Vector.replicate 15 0, len := 200 } } }] }]
    isEchoEnabled := true }

/-- A client that knows the key. -/
def keyedCodec : ChaChaCodec Bincode.crates :=
  ChaChaCodec.new Bincode.crates (Vector.replicate 32 0) 1

/-- The frame, sealed under the key. -/
def overlongDatagram : Bytes :=
  [1, 0, 0, 1, 49, 0, 0, 0, 0, 1, 0, 0, 0, 0, 0, 0, 0, 0, 0, 0, 0, 0, 1, 0, 1, 1, 0, 0, 1, 1, 0, 1, 0, 0, 0,
    0, 0, 0, 0, 0, 0, 0, 0, 0, 0, 0, 0, 0, 200, 0, 0, 0, 0, 1]

end Viewer

end Rumsh.Client
