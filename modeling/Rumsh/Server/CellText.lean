import Mathlib.Data.List.TakeWhile
import Rumsh.Server.State

/-! The text of a compiled cell.

    Two branches encode what the emulator reports of a cell: up to 16 characters one by one into 64 bytes
    on the stack, more of them through a `String`. Both come to the UTF-8 of the text with its control
    characters blanked, and a character has at most four bytes, so the stack is large enough. -/

namespace Rumsh.Server
open Rumsh.Schemes Rumsh.Protocol Utf8

/-! ### Blanking -/

/-- A blank is no control character. -/
theorem isControl_cleanChar (c : Char) : isControl (cleanChar c) = false := by
  unfold cleanChar
  split
  · decide
  · rename_i h
    exact Bool.eq_false_iff.mpr h

/-- A text without control characters is clean already. -/
theorem map_cleanChar_of_not_any {chars : Text} (h : ¬ chars.any isControl = true) :
    chars.map cleanChar = chars := by
  have hclean : ∀ c ∈ chars, cleanChar c = id c := fun c hc =>
    if_neg fun hctl => h (List.any_eq_true.mpr ⟨c, hc, hctl⟩)
  rw [List.map_congr_left hclean, List.map_id]

/-! ### The two encoders -/

theorem encode_length_le (s : Text) : (encode s).length ≤ 4 * s.length := by
  induction s with
  | nil => simp
  | cons c s ih =>
    obtain ⟨b, rest, hc, -, -, hlen⟩ := encodeChar_eq c
    rw [encode_cons, hc, List.length_append, List.length_cons, List.length_cons]
    omega

/-- The loop of the first branch, from what the buffer holds: a large enough buffer takes the rest. -/
theorem foldlM_encodeInto {size : ℕ} {chars : Text} {buf : Bytes}
    (h : buf.length + 4 * chars.length ≤ size) :
    chars.foldlM (fun buf c => encodeInto size buf (cleanChar c)) buf =
      some (buf ++ encode (chars.map cleanChar)) := by
  induction chars generalizing buf with
  | nil => simp
  | cons c chars ih =>
    have hone := encode_length_le [cleanChar c]
    rw [encode_cons, encode_nil, List.append_nil, List.length_singleton] at hone
    rw [List.length_cons] at h
    have hroom : buf.length + (String.utf8EncodeChar (cleanChar c)).length ≤ size := by omega
    rw [List.foldlM_cons, encodeInto, if_pos hroom, Option.bind_eq_bind, Option.bind_some, ih (by
      rw [List.length_append]
      omega), List.map_cons, encode_cons, List.append_assoc]

/-- STACK: four bytes a character are enough, and no character is cut off where none is NUL. -/
theorem stackText_eq {size : ℕ} {chars : Text} (hnul : '\x00' ∉ chars) (h : 4 * chars.length ≤ size) :
    stackText size chars = some (encode (chars.map cleanChar)) := by
  have hall : chars.takeWhile (· ≠ '\x00') = chars :=
    List.takeWhile_eq_self_iff.mpr fun c hc => decide_eq_true (ne_of_mem_of_not_mem hc hnul)
  rw [stackText, hall, foldlM_encodeInto (by simpa using h), List.nil_append]

theorem isSome_stackText {size : ℕ} {chars : Text} (h : 4 * chars.length ≤ size) :
    (stackText size chars).isSome = true := by
  have hle := (List.takeWhile_prefix (· ≠ '\x00') (l := chars)).length_le
  rw [stackText, foldlM_encodeInto (by simp only [List.length_nil]; omega)]
  rfl

/-- HEAP: the other branch, for any text. -/
theorem heapText_eq (chars : Text) : heapText chars = encode (chars.map cleanChar) := by
  unfold heapText
  split
  · rfl
  · rename_i h
    rw [map_cleanChar_of_not_any h]

theorem compileGraphemes_eq {chars : Text} (hne : chars ≠ []) (hnul : '\x00' ∉ chars) :
    compileGraphemes chars = some (CompactGrapheme.new (encode (chars.map cleanChar))) := by
  have hlen : chars.length ≠ 0 := fun h => hne (List.eq_nil_of_length_eq_zero h)
  unfold compileGraphemes
  rw [if_neg hlen]
  split
  · rw [stackText_eq hnul (by omega), Option.map_some]
  · rw [heapText_eq]

theorem compileCell_graphemes {cell : GhosttyCell} (hne : cell.graphemes ≠ [])
    (hnul : '\x00' ∉ cell.graphemes) : ∃ data, compileCell cell = some data ∧
      data.graphemes = CompactGrapheme.new (encode (cell.graphemes.map cleanChar)) := by
  rw [compileCell, compileGraphemes_eq hne hnul]
  exact ⟨_, rfl, rfl⟩

/-- Whatever the emulator reports, a cell is compiled. -/
theorem isSome_compileCell (cell : GhosttyCell) : (compileCell cell).isSome = true := by
  unfold compileCell compileGraphemes
  rw [Option.isSome_map]
  split
  · rfl
  split
  · rw [Option.isSome_map]
    exact isSome_stackText (by omega)
  · rfl

/-- CELL TEXT: of a cell that reports characters, none of them NUL, the grid holds the longest prefix that
    fits in 15 bytes of its text with the control characters blanked. The buffer on the stack is large
    enough, and with a buffer for any length the two branches give the same. -/
theorem compileCell_text {cell : GhosttyCell} (hne : cell.graphemes ≠ []) (hnul : '\x00' ∉ cell.graphemes) :
    (∃ data t, compileCell cell = some data ∧ data.graphemes.asStr = some (encode t) ∧
      t <+: cell.graphemes.map cleanChar ∧ (encode t).length ≤ 15 ∧
      (∀ u, u <+: cell.graphemes.map cleanChar → (encode u).length ≤ 15 → u <+: t) ∧
      ∀ c ∈ t, isControl c = false) ∧
    (cell.graphemes.length ≤ 16 → (stackText 64 cell.graphemes).isSome = true) ∧
    ∀ size, 4 * cell.graphemes.length ≤ size →
      (stackText size cell.graphemes).map CompactGrapheme.new =
        some (CompactGrapheme.new (heapText cell.graphemes)) := by
  refine ⟨?_, fun h => isSome_stackText (by omega), fun size h => ?_⟩
  · obtain ⟨data, hdata, hgr⟩ := compileCell_graphemes hne hnul
    obtain ⟨t, ht, h15, hstr, hmax⟩ := asStr_new (cell.graphemes.map cleanChar)
    rw [← hgr] at hstr
    refine ⟨data, t, hdata, hstr, ht, h15, hmax, fun c hc => ?_⟩
    obtain ⟨d, -, rfl⟩ := List.mem_map.mp (ht.subset hc)
    exact isControl_cleanChar d
  · rw [stackText_eq hnul h, heapText_eq, Option.map_some]

/-- A cell with a letter and a line feed. -/
def letterAndFeed : GhosttyCell :=
  { graphemes := ['é', '\n'], fgColor := none, bgColor := none, bold := true, italic := false
    inverse := false, underline := false }

theorem letterAndFeed_text : ∃ data t, compileCell letterAndFeed = some data ∧
    data.graphemes.asStr = some (encode t) ∧ t <+: ['é', ' '] ∧ (encode t).length ≤ 15 ∧
    (∀ u, u <+: ['é', ' '] → (encode u).length ≤ 15 → u <+: t) ∧ ∀ c ∈ t, isControl c = false :=
  (compileCell_text (show letterAndFeed.graphemes ≠ [] by decide) (by decide)).1

end Rumsh.Server
