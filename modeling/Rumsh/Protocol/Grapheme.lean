import Rumsh.Schemes.Utf8
import Rumsh.Protocol.Grid

/-! The text of a cell.

    `CompactGrapheme::new` keeps the longest prefix of a text that fits in 15 bytes, and `as_str` reads it
    back without a check: the length byte is trusted to be at most 15 and the bytes before it to be
    UTF-8. `Readable` is what it trusts. -/

namespace Rumsh.Protocol
open Rumsh.Schemes Utf8

namespace CompactGrapheme

/-- `as_str`: the slice `bytes[..len]`, `none` where it panics. -/
def asStr (g : CompactGrapheme) : Option Bytes :=
  if g.len.toNat ≤ 15 then some (g.bytes.toList.take g.len.toNat) else none

/-- What `as_str` takes for granted: the slice is inside the array, and it is UTF-8. -/
def Readable (g : CompactGrapheme) : Prop := ∃ bytes, g.asStr = some bytes ∧ IsUtf8 bytes

theorem readable_iff {g : CompactGrapheme} :
    g.Readable ↔ g.len.toNat ≤ 15 ∧ IsUtf8 (g.bytes.toList.take g.len.toNat) := by
  unfold Readable asStr
  split
  · rename_i h
    simp [h]
  · rename_i h
    simp [h]

instance (g : CompactGrapheme) : Decidable g.Readable := decidable_of_iff _ readable_iff.symm

end CompactGrapheme

theorem isCharBoundary_iff {s : Bytes} {i : ℕ} : isCharBoundary s i = true ↔ IsBoundary s i := by
  have hcont : ∀ b : UInt8, (b < 0x80 || 0xC0 ≤ b) = true ↔ isContinuation b = false := by
    intro b
    simp only [isContinuation, Bool.or_eq_true, decide_eq_true_eq, Bool.and_eq_false_iff,
      decide_eq_false_iff_not, UInt8.not_le, UInt8.not_lt]
  unfold isCharBoundary IsBoundary
  rw [Bool.or_eq_true, decide_eq_true_eq]
  refine or_congr Iff.rfl ?_
  cases h : s[i]? with
  | none => simp
  | some b =>
    have hlt : i < s.length := (List.getElem?_eq_some_iff.mp h).1
    have hne : i ≠ s.length := by omega
    simp [hne, hcont]

/-- The loop stops at the last boundary it can reach. -/
theorem floorCharBoundary_spec (s : Bytes) (n : ℕ) :
    IsBoundary s (floorCharBoundary s n) ∧ floorCharBoundary s n ≤ n ∧
      ∀ i ≤ n, IsBoundary s i → i ≤ floorCharBoundary s n := by
  induction n with
  | zero => exact ⟨.inl rfl, le_rfl, fun i hi _ => hi⟩
  | succ n ih =>
    obtain ⟨hb, hle, hmax⟩ := ih
    unfold floorCharBoundary
    split
    · rename_i h
      exact ⟨isCharBoundary_iff.mp h, le_rfl, fun i hi _ => hi⟩
    · rename_i h
      refine ⟨hb, by omega, fun i hi hbi => hmax i ?_ hbi⟩
      by_contra hgt
      obtain rfl : i = n + 1 := by omega
      exact h (isCharBoundary_iff.mpr hbi)

/-- Of two prefixes of a text the one with fewer bytes is a prefix of the other. -/
theorem prefix_of_encode_le {s t u : Text} (ht : t <+: s) (hu : u <+: s)
    (hle : (encode u).length ≤ (encode t).length) : u <+: t := by
  rcases List.prefix_or_prefix_of_prefix hu ht with h | ⟨v, rfl⟩
  · exact h
  · cases v with
    | nil => simp
    | cons c v =>
      rw [encode_append, encode_cons, List.length_append, List.length_append] at hle
      have := encodeChar_length_pos c
      omega

/-- NEW: the constructor keeps the longest prefix of the text that has at most 15 bytes. -/
theorem asStr_new (s : Text) : ∃ t, t <+: s ∧ (encode t).length ≤ 15 ∧
    (CompactGrapheme.new (encode s)).asStr = some (encode t) ∧
    ∀ u, u <+: s → (encode u).length ≤ 15 → u <+: t := by
  -- the length chosen, and why no longer boundary was possible
  obtain ⟨len, hlen, hb, h15, hmax⟩ : ∃ len,
      (if (encode s).length > 15 then floorCharBoundary (encode s) 15 else (encode s).length) = len ∧
      IsBoundary (encode s) len ∧ len ≤ 15 ∧
      ∀ u, u <+: s → (encode u).length ≤ 15 → (encode u).length ≤ len := by
    by_cases h : (encode s).length > 15
    · obtain ⟨hb, hle, hmax⟩ := floorCharBoundary_spec (encode s) 15
      exact ⟨_, if_pos h, hb, hle, fun u hu hu15 =>
        hmax _ hu15 (isBoundary_encode_iff.mpr ⟨u, hu, rfl⟩)⟩
    · refine ⟨_, if_neg h, .inr (.inl rfl), by omega, fun u hu _ => ?_⟩
      obtain ⟨v, rfl⟩ := hu
      rw [encode_append, List.length_append]
      omega
  obtain ⟨t, ht, htlen⟩ := isBoundary_encode_iff.mp hb
  refine ⟨t, ht, htlen ▸ h15, ?_, fun u hu hu15 =>
    prefix_of_encode_le ht hu ((hmax u hu hu15).trans htlen.ge)⟩
  have hnat : (UInt8.ofNat len).toNat = len := by
    rw [UInt8.toNat_ofNat']
    omega
  have htake : (encode s).take len = encode t := by
    obtain ⟨v, rfl⟩ := ht
    rw [encode_append, List.take_append_of_le_length htlen.ge, ← htlen, List.take_length]
  unfold CompactGrapheme.new CompactGrapheme.asStr
  dsimp only
  rw [hlen, hnat, if_pos h15, ← htake]
  refine congrArg some ?_
  refine List.ext_getElem? fun i => ?_
  by_cases hi : i < len
  · have hs : i < (encode s).length := by
      have : len ≤ (encode s).length := by
        rw [← htlen]
        obtain ⟨v, rfl⟩ := ht
        rw [encode_append, List.length_append]
        omega
      omega
    rw [List.getElem?_take_of_lt hi, List.getElem?_take_of_lt hi]
    have hi15 : i < 15 := by omega
    simp [hi, hi15, hs, List.getD_eq_getElem?_getD]
  · rw [List.getElem?_take_eq_none (by omega), List.getElem?_take_eq_none (by omega)]

/-- What the constructor builds can be read. -/
theorem readable_new (s : Text) : (CompactGrapheme.new (encode s)).Readable := by
  obtain ⟨t, -, -, h, -⟩ := asStr_new s
  exact ⟨_, h, isUtf8_encode t⟩

/-- The constructor makes it of some text, up to the padding. -/
def CompactGrapheme.Made (g : CompactGrapheme) : Prop :=
  ∃ s : Text, g.len = (CompactGrapheme.new (encode s)).len ∧
    g.asStr = (CompactGrapheme.new (encode s)).asStr

/-- MADE: what can be read is what the constructor makes, and nothing else. -/
theorem made_iff_readable {g : CompactGrapheme} : g.Made ↔ g.Readable := by
  constructor
  · rintro ⟨s, -, hstr⟩
    obtain ⟨t, ht, htext⟩ := readable_new s
    exact ⟨t, hstr.trans ht, htext⟩
  · intro h
    obtain ⟨hlen, s, hs⟩ := CompactGrapheme.readable_iff.mp h
    have hslen : (encode s).length = g.len.toNat := by
      rw [hs, List.length_take, Vector.length_toList]
      omega
    obtain ⟨t, ht, -, hnew, hmax⟩ := asStr_new s
    have hfull : t = s := ht.eq_of_length_le (hmax s List.prefix_rfl (by omega)).length_le
    refine ⟨s, ?_, ?_⟩
    · have h15 : ¬ (encode s).length > 15 := by omega
      show g.len = UInt8.ofNat (if (encode s).length > 15 then _ else _)
      rw [if_neg h15, hslen, UInt8.ofNat_toNat]
    · rw [hnew, hfull, hs, CompactGrapheme.asStr, if_pos hlen]

/-- A single ASCII character. -/
theorem readable_ascii {b : UInt8} (hb : b.toNat < 128) : (CompactGrapheme.new [b]).Readable := by
  have hchar : (Char.ofNat b.toNat).toNat = b.toNat := by
    have hvalid : b.toNat.isValidChar := .inl (by omega)
    rw [Char.ofNat, dif_pos hvalid]
    rfl
  have henc : encode [Char.ofNat b.toNat] = [b] := by
    rw [encode_cons, encodeChar_ascii (by rw [hchar]; exact hb), hchar, UInt8.ofNat_toNat]
    rfl
  rw [← henc]
  exact readable_new _

theorem readable_blankCell : blankCell.graphemes.Readable := readable_new [' ']

end Rumsh.Protocol
