import Rumsh.Client.Predictions

/-! What a packet without new screen content does to the screen.

    Every packet acknowledges, and an acknowledgement draws the surviving batches again, on a screen that
    shows them already and from a cursor that is already behind them. Text without control bytes fills
    the lines from the cursor on and stays on the last one, so drawing it again changes nothing only if
    it draws nothing, or goes round the last line and leaves it as it was. -/

namespace Rumsh.Client
open Rumsh.Schemes Rumsh.Protocol

namespace LocalEchoEngine
open TerminalFrame

/-! ### Plain text -/

/-- A byte that is no control byte is none of those that only move the cursor. -/
theorem ne_of_plain {b : UInt8} (hb : MirrorSession.isAsciiControl b = false) :
    b ≠ 0x0d ∧ b ≠ 0x0a ∧ b ≠ 0x08 ∧ b ≠ 0x7f := by
  refine ⟨?_, ?_, ?_, ?_⟩ <;> rintro rfl <;> revert hb <;> decide

theorem plain_of_printable {b : UInt8} (hb : isPrintable b = true) :
    MirrorSession.isAsciiControl b = false := by
  simp only [isPrintable, Bool.and_eq_true, decide_eq_true_eq] at hb
  simp only [MirrorSession.isAsciiControl, Bool.or_eq_false_iff, decide_eq_false_iff_not,
    beq_eq_false_iff_ne, UInt8.not_lt]
  exact ⟨hb.1, UInt8.ne_of_lt hb.2⟩

/-- Where the cursor is after `k` printable bytes. -/
def posAt (cols rows x y k : ℕ) : ℕ × ℕ := ((x + k) % cols, min (y + (x + k) / cols) (rows - 1))

/-- STEP: one printable byte moves the cursor on. -/
theorem moveOf_posAt {cols rows x y : ℕ} (hx : x < cols) (hy : y < rows) (hrows : rows < 2 ^ 16) (k : ℕ)
    {b : UInt8} (hb : isPrintable b = true) :
    strokeOf cols rows (posAt cols rows x y k) b = [(posAt cols rows x y k, glyph b)] ∧
    moveOf cols rows (posAt cols rows x y k) b = posAt cols rows x y (k + 1) := by
  have hcols : 0 < cols := Nat.zero_lt_of_lt hx
  have hmod : (x + k) % cols < cols := Nat.mod_lt _ hcols
  have hin : isPrintable b = true ∧ (posAt cols rows x y k).1 < cols ∧ (posAt cols rows x y k).2 < rows :=
    ⟨hb, hmod, by simp only [posAt]; omega⟩
  have hctl := ne_of_plain (plain_of_printable hb)
  unfold strokeOf moveOf
  simp only [hctl.1, hctl.2.1, hctl.2.2.1, hctl.2.2.2, or_self, if_false, if_pos hin, true_and]
  have hdiv := Nat.div_add_mod (x + k) cols
  by_cases hw : (posAt cols rows x y k).1 + 1 ≥ cols
  · have hfull : x + (k + 1) = cols * ((x + k) / cols + 1) := by
      simp only [posAt] at hw
      rw [Nat.mul_add, Nat.mul_one]
      omega
    rw [if_pos hw]
    simp only [posAt, lineBelow, hfull, Nat.mul_mod_right, Nat.mul_div_cancel_left _ hcols, Prod.mk.injEq,
      true_and]
    generalize (x + k) / cols = q
    omega
  · have hnext : x + (k + 1) = (x + k) % cols + 1 + cols * ((x + k) / cols) := by omega
    have hlt : (x + k) % cols + 1 < cols := Nat.not_le.mp hw
    rw [if_neg hw]
    simp only [posAt, hnext, Nat.add_mul_mod_self_left, Nat.add_mul_div_left _ _ hcols,
      Nat.mod_eq_of_lt hlt, Nat.div_eq_of_lt hlt, Nat.zero_add]

/-- RUN: printable text is drawn from the cursor on, position by position. -/
theorem strokes_printable {cols rows x y : ℕ} (hx : x < cols) (hy : y < rows) (hrows : rows < 2 ^ 16)
    (text : Bytes) (htext : ∀ b ∈ text, isPrintable b = true) (k : ℕ) :
    strokes cols rows (posAt cols rows x y k) text =
      (text.zipIdx k).map (fun e => (posAt cols rows x y e.2, glyph e.1)) ∧
    penAfter cols rows (posAt cols rows x y k) text = posAt cols rows x y (k + text.length) := by
  induction text generalizing k with
  | nil => exact ⟨rfl, rfl⟩
  | cons b text ih =>
    obtain ⟨hs, hm⟩ := moveOf_posAt hx hy hrows k (htext b (List.mem_cons_self ..))
    obtain ⟨ihs, ihp⟩ := ih (fun c hc => htext c (List.mem_cons_of_mem _ hc)) (k + 1)
    constructor
    · rw [strokes, hs, hm, ihs]
      rfl
    · rw [penAfter, List.foldl_cons, hm]
      refine ihp.trans ?_
      rw [List.length_cons, Nat.add_assoc, Nat.add_comm 1]

/-- Bytes that are neither control nor printable draw nothing. -/
theorem strokes_filter (cols rows : ℕ) (text : Bytes)
    (hplain : ∀ b ∈ text, MirrorSession.isAsciiControl b = false) (p : ℕ × ℕ) :
    strokes cols rows p text = strokes cols rows p (text.filter isPrintable) ∧
    penAfter cols rows p text = penAfter cols rows p (text.filter isPrintable) := by
  induction text generalizing p with
  | nil => exact ⟨rfl, rfl⟩
  | cons b text ih =>
    have hrest : ∀ c ∈ text, MirrorSession.isAsciiControl c = false := fun c hc =>
      hplain c (List.mem_cons_of_mem _ hc)
    by_cases hb : isPrintable b = true
    · rw [List.filter_cons_of_pos hb]
      obtain ⟨ihs, ihp⟩ := ih hrest (moveOf cols rows p b)
      exact ⟨congrArg (strokeOf cols rows p b ++ ·) ihs, ihp⟩
    · have hctl := ne_of_plain (hplain b (List.mem_cons_self ..))
      have hs : strokeOf cols rows p b = [] ∧ moveOf cols rows p b = p := by
        simp [strokeOf, moveOf, hctl.1, hctl.2.1, hctl.2.2.1, hctl.2.2.2, hb]
      rw [List.filter_cons_of_neg hb]
      obtain ⟨ihs, ihp⟩ := ih hrest p
      refine ⟨?_, ?_⟩
      · rw [strokes, hs.1, hs.2, List.nil_append, ihs]
      · rw [penAfter, List.foldl_cons, hs.2]
        exact ihp

/-- Outside the screen, printable text draws nothing. -/
theorem strokes_outside {cols rows : ℕ} {p : ℕ × ℕ} (hp : ¬ (p.1 < cols ∧ p.2 < rows)) (text : Bytes)
    (htext : ∀ b ∈ text, isPrintable b = true) :
    strokes cols rows p text = [] ∧ penAfter cols rows p text = p := by
  induction text with
  | nil => exact ⟨rfl, rfl⟩
  | cons b text ih =>
    have hctl := ne_of_plain (plain_of_printable (htext b (List.mem_cons_self ..)))
    have hs : strokeOf cols rows p b = [] ∧ moveOf cols rows p b = p := by
      simp [strokeOf, moveOf, hctl.1, hctl.2.1, hctl.2.2.1, hctl.2.2.2, hp]
    obtain ⟨ihs, ihp⟩ := ih fun c hc => htext c (List.mem_cons_of_mem _ hc)
    refine ⟨?_, ?_⟩
    · rw [strokes, hs.1, hs.2, List.nil_append, ihs]
    · rw [penAfter, List.foldl_cons, hs.2]
      exact ihp

/-! ### Drawing text once more -/

/-- Drawing the text changes neither a cell nor the cursor: there is nothing to draw, the cursor is
    outside the screen, or the text goes round the last line and ends on what that line shows. -/
def Settled (f : TerminalFrame) (text : Bytes) : Prop :=
  text = [] ∨ ¬ (f.cursorX < f.cols ∧ f.cursorY < f.rows) ∨
  (f.cursorY + 1 = f.rows ∧ f.cols ∣ text.length ∧
    ∀ k, k < text.length → text.length ≤ k + f.cols →
      f.cellAt ((f.cursorX + k) % f.cols) f.cursorY = text[k]?.map glyph)

/-- Text ends where it began exactly if it goes round the last line. -/
theorem posAt_eq_start_iff {cols rows x y n : ℕ} (hx : x < cols) (hy : y < rows) (hn : 0 < n) :
    posAt cols rows x y n = (x, y) ↔ y + 1 = rows ∧ cols ∣ n := by
  have hcols : 0 < cols := Nat.zero_lt_of_lt hx
  rw [posAt, Prod.mk.injEq]
  constructor
  · rintro ⟨hcol, hrow⟩
    have hdvd : cols ∣ n := by
      have hmod : (x + n) % cols = x % cols := by rw [hcol, Nat.mod_eq_of_lt hx]
      have hsub := Nat.sub_mod_eq_zero_of_mod_eq hmod
      rw [Nat.add_sub_cancel_left] at hsub
      exact Nat.dvd_of_mod_eq_zero hsub
    refine ⟨?_, hdvd⟩
    obtain ⟨m, rfl⟩ := hdvd
    rw [Nat.add_mul_div_left _ _ hcols, Nat.div_eq_of_lt hx, Nat.zero_add] at hrow
    have hm : 0 < m := Nat.pos_of_mul_pos_left hn
    omega
  · rintro ⟨hrow, m, rfl⟩
    rw [Nat.add_mul_mod_self_left, Nat.mod_eq_of_lt hx, Nat.add_mul_div_left _ _ hcols,
      Nat.div_eq_of_lt hx]
    exact ⟨rfl, by omega⟩

/-- Two columns of a round are the same only a whole number of lines apart. -/
theorem col_ne {cols x k j : ℕ} (hkj : k < j) (hj : j < k + cols) : (x + k) % cols ≠ (x + j) % cols := by
  intro h
  have hsub := Nat.sub_mod_eq_zero_of_mod_eq h.symm
  have hle := Nat.le_of_dvd (by omega) (Nat.dvd_of_mod_eq_zero hsub)
  omega

/-- Going round the last line leaves it alone exactly if the last round is what it shows. -/
theorem overwrite_round_iff {cols x y : ℕ} (hcols : 0 < cols) (text : Bytes) (cells : List LocalCellData)
    (hlen : y * cols + cols ≤ cells.length) :
    overwrite cells (text.zipIdx.map fun e => (y * cols + (x + e.2) % cols, glyph e.1)) = cells ↔
      ∀ k, k < text.length → text.length ≤ k + cols →
        cells[y * cols + (x + k) % cols]? = text[k]?.map glyph := by
  have hget : ∀ k : ℕ, (text.zipIdx.map fun e => (y * cols + (x + e.2) % cols, glyph e.1))[k]? =
      text[k]?.map fun b => (y * cols + (x + k) % cols, glyph b) := by
    intro k
    rw [List.getElem?_map, List.getElem?_zipIdx, Option.map_map]
    simp [Function.comp_def]
  rw [overwrite_eq_self_iff]
  constructor
  · intro h k hk hlast
    have hmod := Nat.mod_lt (x + k) hcols
    refine (h _ (glyph text[k]) (by omega) (lastWrite_eq_some_iff.mpr ⟨k, ?_, ?_⟩)).trans ?_
    · rw [hget, List.getElem?_eq_getElem hk, Option.map_some]
    · intro j u hj hu heq
      rw [hget] at hu
      obtain ⟨b, hb, rfl⟩ := Option.map_eq_some_iff.mp hu
      have hjlt : j < text.length := (List.getElem?_eq_some_iff.mp hb).1
      exact col_ne hj (by omega) (Nat.add_left_cancel heq).symm
    · rw [List.getElem?_eq_getElem hk, Option.map_some]
  · intro h i a hi ha
    obtain ⟨k, hk, hlater⟩ := lastWrite_eq_some_iff.mp ha
    rw [hget] at hk
    obtain ⟨b, hb, heq⟩ := Option.map_eq_some_iff.mp hk
    obtain ⟨rfl, rfl⟩ := Prod.mk.inj heq
    have hklt : k < text.length := (List.getElem?_eq_some_iff.mp hb).1
    rw [h k hklt ?_, hb, Option.map_some]
    -- a later round would have gone over this column again
    by_contra hlt
    have hnext : k + cols < text.length := by omega
    refine hlater (k + cols) (y * cols + (x + (k + cols)) % cols, glyph text[k + cols]) (by omega) ?_ ?_
    · rw [hget, List.getElem?_eq_getElem hnext, Option.map_some]
    · rw [← Nat.add_assoc, Nat.add_mod_right]

/-- Drawing plain text leaves cells and cursor alone exactly if they are settled for it. -/
theorem paint_settled_iff {f : TerminalFrame} (hf : f.Sized) (hrows : f.rows < 2 ^ 16) {text : Bytes}
    (hplain : ∀ b ∈ text, MirrorSession.isAsciiControl b = false) :
    (overwrite f.cellCache (writesOf f.cols (strokes f.cols f.rows f.cursor text)) = f.cellCache ∧
      penAfter f.cols f.rows f.cursor text = f.cursor) ↔ Settled f (text.filter isPrintable) := by
  obtain ⟨hs, hp⟩ := strokes_filter f.cols f.rows text hplain f.cursor
  have htext : ∀ b ∈ text.filter isPrintable, isPrintable b = true := fun b hb =>
    (List.mem_filter.mp hb).2
  rw [hs, hp]
  generalize text.filter isPrintable = shown at htext ⊢
  by_cases hnil : shown = []
  · subst hnil
    exact iff_of_true ⟨rfl, rfl⟩ (.inl rfl)
  by_cases hin : f.cursorX < f.cols ∧ f.cursorY < f.rows
  · have hn : 0 < shown.length := List.length_pos_iff.mpr hnil
    have hstart : f.cursor = posAt f.cols f.rows f.cursorX f.cursorY 0 := by
      simp only [cursor, posAt, Nat.add_zero, Nat.mod_eq_of_lt hin.1, Nat.div_eq_of_lt hin.1,
        Prod.mk.injEq, true_and]
      omega
    obtain ⟨hs', hp'⟩ := strokes_printable hin.1 hin.2 hrows shown htext 0
    rw [← hstart] at hs' hp'
    rw [hs', hp', Nat.zero_add, cursor, posAt_eq_start_iff hin.1 hin.2 hn]
    have hlen : f.cursorY * f.cols + f.cols ≤ f.cellCache.length := by
      rw [hf.cells, ← Nat.succ_mul, Nat.mul_comm]
      exact Nat.mul_le_mul_left _ hin.2
    have hwrites : f.cursorY + 1 = f.rows →
        writesOf f.cols (shown.zipIdx.map fun e => (posAt f.cols f.rows f.cursorX f.cursorY e.2, glyph e.1)) =
          shown.zipIdx.map fun e => (f.cursorY * f.cols + (f.cursorX + e.2) % f.cols, glyph e.1) := by
      intro hlast
      rw [writesOf, List.map_map]
      refine List.map_congr_left fun e _ => ?_
      have hrow : min (f.cursorY + (f.cursorX + e.2) / f.cols) (f.rows - 1) = f.cursorY := by
        rw [← hlast, Nat.add_sub_cancel, Nat.min_eq_right (Nat.le_add_right _ _)]
      simp only [Function.comp_apply, posAt, hrow]
    have hround := overwrite_round_iff (x := f.cursorX) (Nat.zero_lt_of_lt hin.1) shown f.cellCache hlen
    constructor
    · rintro ⟨hcells, hlast, hdvd⟩
      rw [hwrites hlast] at hcells
      exact .inr (.inr ⟨hlast, hdvd, hround.mp hcells⟩)
    · rintro (h | h | ⟨hlast, hdvd, hall⟩)
      · exact absurd h hnil
      · exact absurd hin h
      · rw [hwrites hlast]
        exact ⟨hround.mpr hall, hlast, hdvd⟩
  · have hout : ¬ (f.cursor.1 < f.cols ∧ f.cursor.2 < f.rows) := hin
    obtain ⟨hs', hp'⟩ := strokes_outside hout shown htext
    rw [hs', hp']
    exact iff_of_true ⟨rfl, rfl⟩ (.inr (.inl hin))

end LocalEchoEngine

namespace MirrorSession
open TerminalFrame LocalEchoEngine ClientTerminal
variable {C : Type} [PacketCodec C] {s s' : MirrorSession C}

/-- The printable bytes of the pending batches that an ack leaves unconfirmed. -/
def unconfirmedText (s : MirrorSession C) (ack : ℕ) : Bytes :=
  (textOf (s.mirror.echoEngine.keys.filter fun k => decide (ack < k.1))).filter isPrintable

/-- DISPLAY: in every reachable session, a packet that puts no frame on the screen leaves its cells and
    its cursor alone exactly if the screen is settled for the text that stays unconfirmed. The number of
    rows is a `u16`. -/
theorem display_undisturbed_iff {sid : ℕ} {codec : C} {startServerSeq cols rows : ℕ} {overlay : Bool}
    {start now : Instant} {events : List MirrorEvent} {bytes : Bytes}
    {packet : EncryptedServerPacket} {payload : ServerPayload} {stats : CodecStats}
    {r : Except Error (List ClientAction)}
    (hrun : runFrom step (new sid codec startServerSeq cols rows overlay start) events = some s)
    (hrows : s.mirror.frame.rows < 2 ^ 16)
    (hopen : (PacketCodec.openServer s.codec bytes).2 = .ok (some (packet, payload, stats)))
    (hnot : s.appliesFrame packet payload = false) (hfeed : s.feedPacket bytes now = some (s', r)) :
    (s'.mirror.frame.cellCache = s.mirror.frame.cellCache ∧
      s'.mirror.frame.cursorX = s.mirror.frame.cursorX ∧
      s'.mirror.frame.cursorY = s.mirror.frame.cursorY) ↔
    Settled s.mirror.frame (s.unconfirmedText packet.ackSeqNum) := by
  have hpend := pending_run hrun
  obtain ⟨m, t, hm, hsame, hcase⟩ := feedPacket_mirror hopen hfeed
  rcases hcase with ⟨-, heq⟩ | ⟨happ, -⟩
  · obtain ⟨e', hack, -⟩ := acknowledge_eq hpend.sized packet.ackSeqNum
    obtain rfl := Option.some.inj (hack.symm.trans hm)
    rw [hpend.surviving_keys] at hsame
    have hplain : ∀ b ∈ textOf (s.mirror.echoEngine.keys.filter fun k => decide (packet.ackSeqNum < k.1)),
        isAsciiControl b = false := by
      intro b hb
      obtain ⟨k, hk, hbk⟩ := List.mem_flatMap.mp hb
      exact hpend.plain k (List.mem_of_mem_filter hk) b hbk
    rw [unconfirmedText, ← paint_settled_iff hpend.sized hrows hplain, heq, hsame.cellCache]
    refine and_congr Iff.rfl ?_
    have hcur := hsame.cursor
    rw [cursor_paint] at hcur
    rw [← hcur]
    simp [cursor]
  · rw [hnot] at happ
    cases happ

/-- A keepalive that does not yet acknowledge a keystroke draws it a second time. -/
theorem keepalive_draws_again :
    ∃ (s s' : MirrorSession (ChaChaCodec Bincode.crates)) (d : Bytes) (packet : EncryptedServerPacket)
      (stats : CodecStats) (r : Except Error (List ClientAction)),
      let codec := ChaChaCodec.new Bincode.crates (Vector.replicate 32 0) (2 ^ 32)
      codec.sealServer 1 0 .keepAlive = .ok [d] ∧
      runFrom step (new (2 ^ 32) codec 1 3 1 false 0) [.stdin [0x61] 1] = some s ∧
      (PacketCodec.openServer s.codec d).2 = .ok (some (packet, .keepAlive, stats)) ∧
      s.appliesFrame packet .keepAlive = false ∧ s.feedPacket d 2 = some (s', r) ∧
      s.mirror.frame.cellCache = [glyph 0x61, blankCell, blankCell] ∧
      s'.mirror.frame.cellCache = [glyph 0x61, glyph 0x61, blankCell] ∧
      ¬ (s'.mirror.frame.cellCache = s.mirror.frame.cellCache ∧
        s'.mirror.frame.cursorX = s.mirror.frame.cursorX ∧
        s'.mirror.frame.cursorY = s.mirror.frame.cursorY) :=
  ⟨_, _, _, _, _, _, rfl, rfl, rfl, rfl, rfl, by decide +kernel, by decide +kernel, by decide +kernel⟩

/-- A keepalive that acknowledges the keystroke leaves the screen alone. -/
theorem display_undisturbed_confirmed :
    ∃ (s s' : MirrorSession (ChaChaCodec Bincode.crates)) (d : Bytes) (packet : EncryptedServerPacket)
      (stats : CodecStats) (r : Except Error (List ClientAction)),
      let codec := ChaChaCodec.new Bincode.crates (Vector.replicate 32 0) (2 ^ 32)
      codec.sealServer 1 1 .keepAlive = .ok [d] ∧
      runFrom step (new (2 ^ 32) codec 1 3 1 false 0) [.stdin [0x61] 1] = some s ∧
      (PacketCodec.openServer s.codec d).2 = .ok (some (packet, .keepAlive, stats)) ∧
      s.feedPacket d 2 = some (s', r) ∧
      s'.mirror.frame.cellCache = s.mirror.frame.cellCache ∧
      s'.mirror.frame.cursorX = s.mirror.frame.cursorX ∧
      s'.mirror.frame.cursorY = s.mirror.frame.cursorY := by
  obtain ⟨s, s', d, packet, stats, r, hseal, hrun, hopen, hfeed, hrows, htext⟩ :
      ∃ (s s' : MirrorSession (ChaChaCodec Bincode.crates)) (d : Bytes)
        (packet : EncryptedServerPacket) (stats : CodecStats) (r : Except Error (List ClientAction)),
        (ChaChaCodec.new Bincode.crates (Vector.replicate 32 0) (2 ^ 32)).sealServer 1 1 .keepAlive =
          .ok [d] ∧
        runFrom step (new (2 ^ 32) (ChaChaCodec.new Bincode.crates (Vector.replicate 32 0) (2 ^ 32))
          1 3 1 false 0) [.stdin [0x61] 1] = some s ∧
        (PacketCodec.openServer s.codec d).2 = .ok (some (packet, .keepAlive, stats)) ∧
        s.feedPacket d 2 = some (s', r) ∧ s.mirror.frame.rows = 1 ∧
        s.unconfirmedText packet.ackSeqNum = [] :=
    ⟨_, _, _, _, _, _, rfl, rfl, rfl, rfl, rfl, by decide +kernel⟩
  have hnot : s.appliesFrame packet .keepAlive = false := by simp [appliesFrame, gridOf]
  refine ⟨s, s', d, packet, stats, r, hseal, hrun, hopen, hfeed, ?_⟩
  exact (display_undisturbed_iff hrun (by omega) hopen hnot hfeed).mpr (.inl htext)

end MirrorSession

end Rumsh.Client
