import Rumsh.Schemes.Chunks
import Rumsh.Protocol.Grapheme
import Rumsh.Client.Bootstrap

/-! The session's key as a text.

    The parser of a pair accepts a plus sign with one digit, and cutting a pair out of a text panics
    inside a character. `KeyTextFine` is when neither happens, and then the parser takes exactly the texts
    of 64 hexadecimal digits, each for the key it spells. -/

namespace Rumsh.Client
open Rumsh.Schemes Rumsh.Protocol Utf8 Radix

/-! ### The pairs -/

/-- The bytes the `i`-th byte of the key is read from. -/
def keyPair (s : Text) (i : ℕ) : Bytes := chunk 2 (encode s) i

def TwoDigits (p : Bytes) : Prop := ∃ x y, p = [x, y] ∧ isHexDigit x = true ∧ isHexDigit y = true

def PlusDigit (p : Bytes) : Prop := ∃ y, p = [43, y] ∧ isHexDigit y = true

variable {s : Text}

theorem keyPair_eq (hlen : (encode s).length = 64) {i : ℕ} (hi : i < 32) :
    ∃ x y, keyPair s i = [x, y] ∧ (encode s)[i * 2]? = some x ∧ (encode s)[i * 2 + 1]? = some y := by
  have h₀ : i * 2 < (encode s).length := by omega
  have h₁ : i * 2 + 1 < (encode s).length := by omega
  refine ⟨_, _, ?_, List.getElem?_eq_getElem h₀, List.getElem?_eq_getElem h₁⟩
  rw [keyPair, chunk, List.drop_eq_getElem_cons h₀, List.drop_eq_getElem_cons h₁]
  rfl

/-- What the parser makes of a pair. -/
theorem keyPair_cases (hlen : (encode s).length = 64) {i : ℕ} (hi : i < 32) :
    (TwoDigits (keyPair s i) ∧ ∃ v, fromStrRadix 16 255 (keyPair s i) = some v ∧
      (keyPair s i).map lower = hexPair (UInt8.ofNat v)) ∨
    (¬ TwoDigits (keyPair s i) ∧ PlusDigit (keyPair s i) ∧
      ∃ v, fromStrRadix 16 255 (keyPair s i) = some v) ∨
    (¬ TwoDigits (keyPair s i) ∧ ¬ PlusDigit (keyPair s i) ∧
      fromStrRadix 16 255 (keyPair s i) = none) := by
  obtain ⟨x, y, hp, -, -⟩ := keyPair_eq hlen hi
  have htwo : TwoDigits (keyPair s i) ↔ isHexDigit x = true ∧ isHexDigit y = true := by
    rw [hp]
    constructor
    · rintro ⟨x', y', heq, hx, hy⟩
      cases heq
      exact ⟨hx, hy⟩
    · exact fun h => ⟨x, y, rfl, h⟩
  have hplus : PlusDigit (keyPair s i) ↔ x = 43 ∧ isHexDigit y = true := by
    rw [hp]
    constructor
    · rintro ⟨y', heq, hy⟩
      cases heq
      exact ⟨rfl, hy⟩
    · rintro ⟨rfl, hy⟩
      exact ⟨y, rfl, hy⟩
  rw [htwo, hplus, hp]
  rcases fromStrRadix_pair x y with ⟨hx, hy, v, -, hv, hlow⟩ | ⟨rfl, hy, hv⟩ | hnone
  · exact .inl ⟨⟨hx, hy⟩, v, hv, hlow⟩
  · exact .inr (.inl ⟨fun h => absurd h.1 (by decide), ⟨rfl, hy⟩, hv⟩)
  · exact .inr (.inr hnone)

theorem fromStrRadix_keyPair_eq_none_iff (hlen : (encode s).length = 64) {i : ℕ} (hi : i < 32) :
    fromStrRadix 16 255 (keyPair s i) = none ↔ ¬ (TwoDigits (keyPair s i) ∨ PlusDigit (keyPair s i)) := by
  rw [not_or]
  rcases keyPair_cases hlen hi with ⟨h, v, hv, -⟩ | ⟨-, h, v, hv⟩ | ⟨h₁, h₂, hnone⟩
  · exact iff_of_false (by simp [hv]) fun hno => hno.1 h
  · exact iff_of_false (by simp [hv]) fun hno => hno.2 h
  · exact iff_of_true hnone ⟨h₁, h₂⟩

theorem toNat_lt_of_isHexDigit {b : UInt8} (h : isHexDigit b = true) : b.toNat < 128 := by
  simp only [isHexDigit, Bool.or_eq_true, Bool.and_eq_true, decide_eq_true_eq,
    UInt8.le_iff_toNat_le] at h
  have h57 : (57 : UInt8).toNat = 57 := rfl
  have h102 : (102 : UInt8).toNat = 102 := rfl
  have h70 : (70 : UInt8).toNat = 70 := rfl
  omega

/-- A pair that is accepted ends at a boundary if it starts at one. -/
theorem isBoundary_next (hlen : (encode s).length = 64) {i : ℕ} (hi : i < 32)
    (hb : IsBoundary (encode s) (i * 2)) (hp : TwoDigits (keyPair s i) ∨ PlusDigit (keyPair s i)) :
    IsBoundary (encode s) ((i + 1) * 2) := by
  obtain ⟨x, y, heq, hx, hy⟩ := keyPair_eq hlen hi
  have hascii : x.toNat < 128 ∧ y.toNat < 128 := by
    rw [heq] at hp
    rcases hp with ⟨x', y', h, hx', hy'⟩ | ⟨y', h, hy'⟩
    · cases h
      exact ⟨toNat_lt_of_isHexDigit hx', toNat_lt_of_isHexDigit hy'⟩
    · cases h
      exact ⟨by decide, toNat_lt_of_isHexDigit hy'⟩
  have h₁ := isBoundary_succ hb hx hascii.1
  have h₂ := isBoundary_succ h₁ hy hascii.2
  rwa [Nat.succ_mul]

/-! ### The loop -/

theorem slice_eq (s : Text) (i : ℕ) (hb : IsBoundary (encode s) (i * 2)) :
    slice (encode s) (i * 2) (i * 2 + 2) =
      if isCharBoundary (encode s) (i * 2 + 2) then some (keyPair s i) else none := by
  have hlen : i * 2 + 2 - i * 2 = 2 := by omega
  rw [slice, isCharBoundary_iff.mpr hb, hlen]
  simp only [true_and]
  rfl

/-- RUN: from pair `i` on, either all are accepted and fill the key, or the first that is not ends the
    loop, by an error or by a panic. -/
theorem parsePairs_spec (hlen : (encode s).length = 64) : ∀ (n i : ℕ) (key : Key), i + n = 32 →
    IsBoundary (encode s) (i * 2) →
    (∃ key', parsePairs (encode s) key (List.range' i n) = some (.ok key') ∧
      (∀ j < i, key'[j]? = key[j]?) ∧ ∀ j, i ≤ j → j < 32 →
        (TwoDigits (keyPair s j) ∨ PlusDigit (keyPair s j)) ∧
        ∃ v, fromStrRadix 16 255 (keyPair s j) = some v ∧ key'[j]? = some (UInt8.ofNat v)) ∨
    ∃ j, i ≤ j ∧ j < 32 ∧
      (∀ l, i ≤ l → l < j → TwoDigits (keyPair s l) ∨ PlusDigit (keyPair s l)) ∧
      ¬ TwoDigits (keyPair s j) ∧ ¬ PlusDigit (keyPair s j) ∧
      parsePairs (encode s) key (List.range' i n) =
        if isCharBoundary (encode s) (j * 2 + 2) then some (.error .parseByte) else none := by
  intro n
  induction n with
  | zero =>
    intro i key hi _
    exact .inl ⟨key, rfl, fun _ _ => rfl, fun j hj hlt => by omega⟩
  | succ n ih =>
    intro i key hi hb
    have hlt : i < 32 := by omega
    rw [List.range'_succ, parsePairs, slice_eq s i hb]
    by_cases hp : TwoDigits (keyPair s i) ∨ PlusDigit (keyPair s i)
    · obtain ⟨v, hv⟩ : ∃ v, fromStrRadix 16 255 (keyPair s i) = some v :=
        Option.ne_none_iff_exists'.mp fun hnone =>
          (fromStrRadix_keyPair_eq_none_iff hlen hlt).mp hnone hp
      have hnext := isBoundary_next hlen hlt hb hp
      have hcb : isCharBoundary (encode s) (i * 2 + 2) = true := by
        rw [Nat.succ_mul] at hnext
        exact isCharBoundary_iff.mpr hnext
      rw [if_pos hcb]
      dsimp only
      rw [hv]
      dsimp only
      rcases ih (i + 1) (key.setIfInBounds i (UInt8.ofNat v)) (by omega) hnext with
        ⟨key', hkey, hold, hnew⟩ | ⟨j, hij, hj, hbefore, h₁, h₂, hres⟩
      · refine .inl ⟨key', hkey, fun j hj => ?_, fun j hij hj => ?_⟩
        · rw [hold j (by omega), Vector.getElem?_setIfInBounds_ne (by omega)]
        · by_cases heq : j = i
          · subst heq
            refine ⟨hp, v, hv, ?_⟩
            rw [hold j (by omega), Vector.getElem?_setIfInBounds_self_of_lt hlt]
          · exact hnew j (by omega) hj
      · refine .inr ⟨j, by omega, hj, fun l hil hlj => ?_, h₁, h₂, hres⟩
        by_cases heq : l = i
        · exact heq ▸ hp
        · exact hbefore l (by omega) hlj
    · obtain ⟨h₁, h₂⟩ := not_or.mp hp
      have hnone := (fromStrRadix_keyPair_eq_none_iff hlen hlt).mpr hp
      refine .inr ⟨i, le_rfl, hlt, fun l hil hli => by omega, h₁, h₂, ?_⟩
      by_cases hcb : isCharBoundary (encode s) (i * 2 + 2) = true
      · rw [if_pos hcb, if_pos hcb]
        dsimp only
        rw [hnone]
      · rw [if_neg hcb, if_neg hcb]

/-! ### Texts of hexadecimal digits -/

def IsHexChar (c : Char) : Prop := ('0' ≤ c ∧ c ≤ '9') ∨ ('a' ≤ c ∧ c ≤ 'f') ∨ ('A' ≤ c ∧ c ≤ 'F')

instance (c : Char) : Decidable (IsHexChar c) :=
  inferInstanceAs (Decidable (('0' ≤ c ∧ c ≤ '9') ∨ ('a' ≤ c ∧ c ≤ 'f') ∨ ('A' ≤ c ∧ c ≤ 'F')))

/-- Exactly 64 of them. -/
def IsHexText (s : Text) : Prop := s.length = 64 ∧ ∀ c ∈ s, IsHexChar c

theorem IsHexChar.toNat_bounds {c : Char} (h : IsHexChar c) : 48 ≤ c.toNat ∧ c.toNat ≤ 102 := by
  simp only [IsHexChar, Char.le_def, UInt32.le_iff_toNat_le] at h
  have h48 : '0'.val.toNat = 48 := rfl
  have h57 : '9'.val.toNat = 57 := rfl
  have h65 : 'A'.val.toNat = 65 := rfl
  have h70 : 'F'.val.toNat = 70 := rfl
  have h97 : 'a'.val.toNat = 97 := rfl
  have h102 : 'f'.val.toNat = 102 := rfl
  have hval : c.toNat = c.val.toNat := rfl
  omega

theorem toNat_lt_of_isHexChar {c : Char} (h : IsHexChar c) : c.toNat < 128 :=
  h.toNat_bounds.2.trans_lt (by decide)

/-- An ASCII character and its byte. -/
theorem ascii_char {c : Char} (h : c.toNat < 128) :
    (IsHexChar c ↔ isHexDigit (UInt8.ofNat c.toNat) = true) ∧ c.toLower.toNat < 128 ∧
      UInt8.ofNat c.toLower.toNat = lower (UInt8.ofNat c.toNat) := by
  have hall : ∀ n < 128, (IsHexChar (Char.ofNat n) ↔ isHexDigit (UInt8.ofNat n) = true) ∧
      (Char.ofNat n).toLower.toNat < 128 ∧
      UInt8.ofNat (Char.ofNat n).toLower.toNat = lower (UInt8.ofNat n) := by decide +kernel
  have hc := hall c.toNat h
  rwa [Char.ofNat_toNat] at hc

/-- The pairs are all of a text of 64 bytes. -/
theorem flatMap_keyPair (hlen : (encode s).length = 64) :
    (List.range 32).flatMap (keyPair s) = encode s := by
  have h := flatMap_chunk 2 (encode s) 32
  rwa [List.take_of_length_le (by omega)] at h

theorem isHexText_iff : IsHexText s ↔
    (encode s).length = 64 ∧ ∀ i < 32, TwoDigits (keyPair s i) := by
  constructor
  · rintro ⟨hlen, hs⟩
    have hbytes := encode_ascii fun c hc => toNat_lt_of_isHexChar (hs c hc)
    have hlen' : (encode s).length = 64 := by rw [hbytes, List.length_map, hlen]
    have hdigit : ∀ b ∈ encode s, isHexDigit b = true := by
      intro b hb
      rw [hbytes] at hb
      obtain ⟨c, hc, rfl⟩ := List.mem_map.mp hb
      exact (ascii_char (toNat_lt_of_isHexChar (hs c hc))).1.mp (hs c hc)
    refine ⟨hlen', fun i hi => ?_⟩
    obtain ⟨x, y, hp, hx, hy⟩ := keyPair_eq hlen' hi
    exact ⟨x, y, hp, hdigit x (List.mem_of_getElem? hx), hdigit y (List.mem_of_getElem? hy)⟩
  · rintro ⟨hlen, hpairs⟩
    have hdigit : ∀ b ∈ encode s, isHexDigit b = true := by
      intro b hb
      rw [← flatMap_keyPair hlen] at hb
      obtain ⟨i, hi, hb⟩ := List.mem_flatMap.mp hb
      obtain ⟨x, y, hp, hx, hy⟩ := hpairs i (List.mem_range.mp hi)
      rw [hp] at hb
      rcases List.mem_cons.mp hb with rfl | hb
      · exact hx
      · rw [List.mem_singleton.mp hb]
        exact hy
    have hascii := ascii_of_encode fun b hb => toNat_lt_of_isHexDigit (hdigit b hb)
    have hbytes := encode_ascii hascii
    refine ⟨by rw [← hlen, hbytes, List.length_map], fun c hc => ?_⟩
    exact (ascii_char (hascii c hc)).1.mpr
      (hdigit _ (hbytes ▸ List.mem_map.mpr ⟨c, hc, rfl⟩))

/-! ### The text of a key -/

theorem digitChar_lt {d : ℕ} (h : d < 16) : (Nat.digitChar d).toNat < 128 := by
  have : ∀ d < 16, (Nat.digitChar d).toNat < 128 := by decide
  exact this d h

theorem keyHex_ascii (key : Key) : ∀ c ∈ keyHex key, c.toNat < 128 := by
  intro c hc
  obtain ⟨b, -, hc⟩ := List.mem_flatMap.mp hc
  have hb := UInt8.toNat_lt b
  rcases List.mem_cons.mp hc with rfl | hc
  · exact digitChar_lt (by omega)
  · rw [List.mem_singleton.mp hc]
    exact digitChar_lt (by omega)

theorem encode_keyHex (key : Key) : encode (keyHex key) = key.toList.flatMap hexPair := by
  rw [encode_ascii (keyHex_ascii key), keyHex, List.map_flatMap]
  rfl

/-- The parser spells: lower case makes of the text the text of the key. -/
theorem map_toLower_eq_keyHex (hs : IsHexText s) {key : Key}
    (hkey : ∀ j < 32, ∃ v, fromStrRadix 16 255 (keyPair s j) = some v ∧ key[j]? = some (UInt8.ofNat v)) :
    s.map Char.toLower = keyHex key := by
  have hascii : ∀ c ∈ s, c.toNat < 128 := fun c hc => toNat_lt_of_isHexChar (hs.2 c hc)
  obtain ⟨hlen, htwo⟩ := isHexText_iff.mp hs
  have hlower : ∀ c ∈ s.map Char.toLower, c.toNat < 128 := by
    intro c hc
    obtain ⟨d, hd, rfl⟩ := List.mem_map.mp hc
    exact (ascii_char (hascii d hd)).2.1
  have hpair : ∀ i ∈ List.range 32, hexPair (key.toList.getD i 0) = (keyPair s i).map lower := by
    intro i hi
    have hi := List.mem_range.mp hi
    obtain ⟨v, hv, hget⟩ := hkey i hi
    rcases keyPair_cases hlen hi with ⟨-, w, hw, hlow⟩ | ⟨h, -⟩ | ⟨h, -⟩
    · obtain rfl := Option.some.inj (hw.symm.trans hv)
      rw [hlow, List.getD_eq_getElem?_getD, Vector.getElem?_toList, hget, Option.getD_some]
    · exact absurd (htwo i hi) h
    · exact absurd (htwo i hi) h
  have hlist : key.toList = (List.range 32).map fun i => key.toList.getD i 0 := by
    refine List.ext_getElem (by simp) fun i hi _ => ?_
    rw [List.getElem_map, List.getElem_range, List.getD_eq_getElem?_getD, List.getElem?_eq_getElem hi,
      Option.getD_some]
  refine encode_injective ?_
  calc encode (s.map Char.toLower) = (encode s).map lower := by
        rw [encode_ascii hlower, encode_ascii hascii, List.map_map, List.map_map]
        exact List.map_congr_left fun c hc => (ascii_char (hascii c hc)).2.2
    _ = (List.range 32).flatMap fun i => (keyPair s i).map lower := by
        rw [← flatMap_keyPair hlen, List.map_flatMap]
    _ = (List.range 32).flatMap fun i => hexPair (key.toList.getD i 0) :=
        List.flatMap_congr fun i hi => (hpair i hi).symm
    _ = encode (keyHex key) := by
        rw [encode_keyHex, hlist, List.flatMap_map, ← hlist]

/-! ### Exactness -/

/-- No panic, and the texts accepted are those of 64 hexadecimal digits, each for the key it spells. -/
def ParsesExactly (s : Text) : Prop :=
  ∃ r, parseHexKey s = some r ∧ ((∃ key, r = .ok key) ↔ IsHexText s) ∧
    ∀ key, r = .ok key → s.map Char.toLower = keyHex key

/-- Not 64 bytes, or digits in every pair, or the first pair that is neither two digits nor a plus sign
    with one ends where a character ends. -/
def KeyTextFine (s : Text) : Prop :=
  (encode s).length ≠ 64 ∨ (∀ i < 32, TwoDigits (keyPair s i)) ∨
    ∃ i < 32, (∀ j < i, TwoDigits (keyPair s j) ∨ PlusDigit (keyPair s j)) ∧
      ¬ TwoDigits (keyPair s i) ∧ ¬ PlusDigit (keyPair s i) ∧ IsBoundary (encode s) (i * 2 + 2)

/-- If every pair was accepted, none of them may have a sign. -/
theorem keyTextFine_iff_of_filled (hlen : (encode s).length = 64)
    (hall : ∀ i < 32, TwoDigits (keyPair s i) ∨ PlusDigit (keyPair s i)) : KeyTextFine s ↔ IsHexText s := by
  rw [isHexText_iff]
  constructor
  · rintro (h | htwo | ⟨i, hi, -, h₁, h₂, -⟩)
    · exact absurd hlen h
    · exact ⟨hlen, htwo⟩
    · exact absurd (hall i hi) (not_or.mpr ⟨h₁, h₂⟩)
  · exact fun h => .inr (.inl h.2)

/-- Otherwise the first pair that was not may not end inside a character. -/
theorem keyTextFine_iff_of_stopped (hlen : (encode s).length = 64) {j : ℕ} (hj : j < 32)
    (hbefore : ∀ l < j, TwoDigits (keyPair s l) ∨ PlusDigit (keyPair s l))
    (h₁ : ¬ TwoDigits (keyPair s j)) (h₂ : ¬ PlusDigit (keyPair s j)) :
    KeyTextFine s ↔ IsBoundary (encode s) (j * 2 + 2) := by
  constructor
  · rintro (h | htwo | ⟨i, hi, hbefore', h₁', h₂', hb⟩)
    · exact absurd hlen h
    · exact absurd (htwo j hj) h₁
    · obtain rfl : i = j := by
        rcases Nat.lt_trichotomy i j with hlt | heq | hgt
        · exact absurd (hbefore i hlt) (not_or.mpr ⟨h₁', h₂'⟩)
        · exact heq
        · exact absurd (hbefore' j hgt) (not_or.mpr ⟨h₁, h₂⟩)
      exact hb
  · exact fun hb => .inr (.inr ⟨j, hj, hbefore, h₁, h₂, hb⟩)

/-- A text that is refused is refused rightly if it is no text of digits. -/
theorem parsesExactly_of_error {e : BootstrapError} (h : parseHexKey s = some (.error e))
    (hno : ¬ IsHexText s) : ParsesExactly s := by
  refine ⟨_, h, iff_of_false ?_ hno, ?_⟩
  · rintro ⟨key, hkey⟩
    cases hkey
  · intro key hkey
    cases hkey

/-- Every text: the parser is exact exactly if the text is fine. -/
theorem parsesExactly_iff (s : Text) : ParsesExactly s ↔ KeyTextFine s := by
  by_cases hlen : (encode s).length = 64
  swap
  · refine iff_of_true (parsesExactly_of_error (if_pos hlen) fun hs => ?_) (.inl hlen)
    exact hlen (isHexText_iff.mp hs).1
  have hparse : parseHexKey s = parsePairs (encode s) (Vector.replicate 32 0) (List.range' 0 32) := by
    rw [parseHexKey, if_neg (not_not.mpr hlen), List.range_eq_range']
  rcases parsePairs_spec hlen 32 0 (Vector.replicate 32 0) rfl (.inl (Nat.zero_mul 2)) with
    ⟨key, hkey, -, hall⟩ | ⟨j, -, hj, hbefore, h₁, h₂, hres⟩
  · rw [keyTextFine_iff_of_filled hlen fun j hj => (hall j (Nat.zero_le j) hj).1]
    constructor
    · rintro ⟨r, hr, hiff, -⟩
      rw [hparse, hkey, Option.some_inj] at hr
      exact hiff.mp ⟨key, hr.symm⟩
    · intro hs
      refine ⟨.ok key, by rw [hparse, hkey], iff_of_true ⟨key, rfl⟩ hs, ?_⟩
      rintro key' heq
      cases heq
      exact map_toLower_eq_keyHex hs fun j hj => (hall j (Nat.zero_le j) hj).2
  · rw [keyTextFine_iff_of_stopped hlen hj (fun l hl => hbefore l (Nat.zero_le l) hl) h₁ h₂,
      ← isCharBoundary_iff]
    constructor
    · rintro ⟨r, hr, -⟩
      by_contra hcb
      rw [hparse, hres, if_neg hcb] at hr
      cases hr
    · intro hcb
      refine parsesExactly_of_error (by rw [hparse, hres, if_pos hcb]) fun hs => ?_
      exact h₁ ((isHexText_iff.mp hs).2 j hj)

/-! ### The token line -/

theorem keyHex_injective {key key' : Key} (h : keyHex key = keyHex key') : key = key' := by
  have hbytes := congrArg encode h
  rw [encode_keyHex, encode_keyHex] at hbytes
  exact Vector.toList_inj.mp (flatMap_hexPair_injective hbytes)

/-- The server prints lower case digits. -/
theorem keyHex_digit (key : Key) : ∀ c ∈ keyHex key, IsHexChar c ∧ c.toLower = c := by
  have hall : ∀ d < 16, IsHexChar (Nat.digitChar d) ∧ (Nat.digitChar d).toLower = Nat.digitChar d := by
    decide
  intro c hc
  obtain ⟨b, -, hc⟩ := List.mem_flatMap.mp hc
  have hb := UInt8.toNat_lt b
  rcases List.mem_cons.mp hc with rfl | hc
  · exact hall _ (by omega)
  · rw [List.mem_singleton.mp hc]
    exact hall _ (by omega)

theorem isHexText_keyHex (key : Key) : IsHexText (keyHex key) := by
  refine ⟨?_, fun c hc => (keyHex_digit key c hc).1⟩
  have hlen : ∀ bs : List UInt8, (bs.flatMap fun b =>
      [Nat.digitChar (b.toNat / 16), Nat.digitChar (b.toNat % 16)]).length = 2 * bs.length := by
    intro bs
    induction bs with
    | nil => rfl
    | cons b bs ih =>
      rw [List.flatMap_cons, List.length_append, ih, List.length_cons, List.length_cons,
        List.length_cons, List.length_nil]
      omega
  rw [keyHex, hlen, Vector.length_toList]

/-- The key the server prints is read back. -/
theorem parseHexKey_keyHex (key : Key) : parseHexKey (keyHex key) = some (.ok key) := by
  have hs := isHexText_keyHex key
  obtain ⟨r, hr, hiff, hspells⟩ := (parsesExactly_iff _).mpr (.inr (.inl (isHexText_iff.mp hs).2))
  obtain ⟨key', rfl⟩ := hiff.mpr hs
  have hlow : (keyHex key).map Char.toLower = keyHex key := by
    rw [List.map_congr_left fun c hc => (keyHex_digit key c hc).2, List.map_id']
  rw [hr, keyHex_injective ((hspells key' rfl).symm.trans hlow)]

/-- The first line feed ends a line. -/
theorem readLines_cons {line : Bytes} (h : 10 ∉ line) (more : Bytes) :
    readLines (line ++ 10 :: more) = (decode line).map stripCr :: readLines more := by
  rw [readLines, List.splitOn_append_cons_self_of_not_mem h, readLines]
  cases hmore : more.splitOn 10 with
  | nil => exact absurd hmore (List.splitOn_ne_nil 10 more)
  | cons p ps => rfl

/-- A printed character that is no blank. -/
def Visible (c : Char) : Prop := 0x21 ≤ c.toNat ∧ c.toNat < 0x7f

theorem Visible.not_isWhitespace {c : Char} (h : Visible c) : isWhitespace c = false := by
  obtain ⟨hlo, hhi⟩ := h
  simp only [isWhitespace, List.mem_cons, List.not_mem_nil, or_false, decide_eq_false_iff_not]
  omega

theorem visible_keyHex (key : Key) : ∀ c ∈ keyHex key, Visible c := by
  intro c hc
  obtain ⟨hlo, hhi⟩ := (keyHex_digit key c hc).1.toNat_bounds
  rw [Visible]
  omega

theorem visible_toDigits (n : ℕ) : ∀ c ∈ Nat.toDigits 10 n, Visible c := by
  intro c hc
  have hdigit := Nat.isDigit_of_mem_toDigits (by decide) (by decide) hc
  rw [Char.isDigit, Bool.and_eq_true, decide_eq_true_eq, decide_eq_true_eq] at hdigit
  obtain ⟨h48, h57⟩ : 48 ≤ c.toNat ∧ c.toNat ≤ 57 := hdigit
  rw [Visible]
  omega

def rumshWord : Text := ['R', 'U', 'M', 'S', 'H']

def connectWord : Text := ['C', 'O', 'N', 'N', 'E', 'C', 'T']

/-- The token line is four words. -/
theorem connectToken_eq (port : ℕ) (key : Key) : connectToken port key =
    rumshWord ++ ' ' :: (connectWord ++ ' ' :: (Nat.toDigits 10 port ++ ' ' :: keyHex key)) := by
  simp [connectToken, tokenPrefix, rumshWord, connectWord]

theorem splitWhitespace_connectToken (port : ℕ) (key : Key) :
    splitWhitespace (connectToken port key) =
      [rumshWord, connectWord, Nat.toDigits 10 port, keyHex key] := by
  have hblank : isWhitespace ' ' = true := by decide
  have hdigits : ∀ c ∈ Nat.toDigits 10 port, isWhitespace c = false := fun c hc =>
    (visible_toDigits port c hc).not_isWhitespace
  have hhex : ∀ c ∈ keyHex key, isWhitespace c = false := fun c hc =>
    (visible_keyHex key c hc).not_isWhitespace
  have hne : keyHex key ≠ [] := fun h => by
    have hlen := (isHexText_keyHex key).1
    rw [h] at hlen
    cases hlen
  have hrumsh : ∀ c ∈ rumshWord, isWhitespace c = false := by
    simp [rumshWord, isWhitespace]
  have hconnect : ∀ c ∈ connectWord, isWhitespace c = false := by
    simp [connectWord, isWhitespace]
  rw [splitWhitespace, connectToken_eq,
    List.splitOnP_append_cons_of_forall_mem hrumsh ' ' hblank,
    List.splitOnP_append_cons_of_forall_mem hconnect ' ' hblank,
    List.splitOnP_append_cons_of_forall_mem hdigits ' ' hblank, List.splitOnP_eq_singleton hhex]
  simp [rumshWord, connectWord, hne]

/-- It is ASCII and holds no line end. -/
theorem connectToken_char (port : ℕ) (key : Key) :
    ∀ c ∈ connectToken port key, 0x20 ≤ c.toNat ∧ c.toNat < 128 := by
  intro c hc
  simp only [connectToken, List.mem_append] at hc
  rcases hc with ((hc | hc) | hc) | hc
  · have hall : ∀ c ∈ tokenPrefix, 0x20 ≤ c.toNat ∧ c.toNat < 128 := by
      simp [tokenPrefix]
    exact hall c hc
  · obtain ⟨hlo, hhi⟩ := visible_toDigits port c hc
    omega
  · rw [List.mem_singleton.mp hc]
    decide
  · obtain ⟨hlo, hhi⟩ := visible_keyHex key c hc
    omega

/-- TOKEN: the line is recognised, and read back to the port and the text of the key. -/
theorem parseLines_connectToken {port : ℕ} (hport : port ≤ 65535) (key : Key)
    (more : List (Option Text)) :
    parseLines (some (connectToken port key) :: more) = .ok (port, keyHex key) := by
  have hprefix : tokenPrefix.isPrefixOf (connectToken port key) = true := by
    rw [List.isPrefixOf_iff_prefix, connectToken, List.append_assoc, List.append_assoc]
    exact List.prefix_append ..
  have hdigits := encode_ascii fun c hc => (visible_toDigits port c hc).2.trans (by decide)
  rw [parseLines, if_pos hprefix, splitWhitespace_connectToken]
  dsimp only
  rw [hdigits, fromStrRadix_toDigits hport]

/-- A line of the output that is no token line. -/
def NotToken (line : Bytes) : Prop := 10 ∉ line ∧ ¬ encode tokenPrefix <+: line

/-- Such a line is skipped, if it is UTF-8. -/
theorem parseLines_notToken {line : Bytes} (h : NotToken line) {text : Text}
    (htext : decode line = some text) (more : List (Option Text)) :
    parseLines (some (stripCr text) :: more) = parseLines more := by
  rw [parseLines, if_neg]
  intro hprefix
  have hle : stripCr text <+: text := by
    unfold stripCr
    split
    · exact List.dropLast_prefix text
    · exact List.prefix_rfl
  obtain ⟨rest, hrest⟩ := (List.isPrefixOf_iff_prefix.mp hprefix).trans hle
  refine h.2 ⟨encode rest, ?_⟩
  rw [← encode_append, hrest, decode_eq_some.mp htext]

/-- RUN: the token is found if every line before it is UTF-8, and otherwise the first that is not ends the
    search. -/
theorem parseToken_connectToken {port : ℕ} (hport : port ≤ 65535) (key : Key) (rest : Bytes) :
    ∀ before : List Bytes, (∀ line ∈ before, NotToken line) →
    parseToken (before.flatMap (· ++ [10]) ++ (encode (connectToken port key) ++ 10 :: rest)) =
      if ∀ line ∈ before, IsUtf8 line then .ok (port, keyHex key) else .error .invalidData := by
  intro before
  induction before with
  | nil =>
    intro _
    have hchar := connectToken_char port key
    have hbytes := encode_ascii fun c hc => (hchar c hc).2
    have hfeed : 10 ∉ encode (connectToken port key) := by
      intro hmem
      rw [hbytes] at hmem
      obtain ⟨c, hc, heq⟩ := List.mem_map.mp hmem
      have hval := congrArg UInt8.toNat heq
      rw [UInt8.toNat_ofNat', show (10 : UInt8).toNat = 10 from rfl] at hval
      have := hchar c hc
      omega
    have hcr : stripCr (connectToken port key) = connectToken port key := by
      refine if_neg fun hlast => ?_
      have := (hchar _ (List.mem_of_getLast? hlast)).1
      exact absurd this (by decide)
    rw [List.flatMap_nil, List.nil_append, parseToken, readLines_cons hfeed, decode_encode,
      Option.map_some, hcr, parseLines_connectToken hport, if_pos]
    intro line hline
    cases hline
  | cons line before ih =>
    intro hbefore
    obtain ⟨hline, hbefore⟩ := List.forall_mem_cons.mp hbefore
    rw [List.flatMap_cons, List.append_assoc, List.append_assoc, List.singleton_append, parseToken,
      readLines_cons hline.1]
    cases htext : decode line with
    | none =>
      have hbad : ¬ IsUtf8 line := by
        rw [isUtf8_iff, htext]
        simp
      rw [Option.map_none, parseLines, if_neg fun h => hbad (h line (List.mem_cons_self ..))]
    | some text =>
      have hgood : IsUtf8 line := ⟨text, decode_eq_some.mp htext⟩
      rw [Option.map_some, parseLines_notToken hline htext]
      refine (ih hbefore).trans ?_
      simp only [List.forall_mem_cons, hgood, true_and]

/-- KEY TEXT: the parser of keys is exact on a text exactly if the text is fine; and the line the server
    prints, after any lines that are no token lines, is read back to its port and key exactly if those
    lines are UTF-8. -/
theorem key_text_exact_iff (s : Text) {before : List Bytes} (hbefore : ∀ line ∈ before, NotToken line)
    (port : UInt16) (key : Key) (rest : Bytes) :
    (ParsesExactly s ↔ KeyTextFine s) ∧
    ((∃ text, parseToken (before.flatMap (· ++ [10]) ++
        (encode (connectToken port.toNat key) ++ 10 :: rest)) = .ok (port.toNat, text) ∧
      parseHexKey text = some (.ok key)) ↔ ∀ line ∈ before, IsUtf8 line) := by
  refine ⟨parsesExactly_iff s, ?_⟩
  have hport : port.toNat ≤ 65535 := Nat.le_of_lt_succ port.toNat_lt
  rw [parseToken_connectToken hport key rest before hbefore]
  constructor
  · rintro ⟨text, htext, -⟩
    by_contra hbad
    rw [if_neg hbad] at htext
    cases htext
  · intro hutf8
    exact ⟨keyHex key, if_pos hutf8, parseHexKey_keyHex key⟩

/-- A line of noise, and the token after it. -/
theorem token_after_noise : ParsesExactly [] ∧
    ∃ text, parseToken ([[0x6e, 0x6f, 0x69, 0x73, 0x65]].flatMap (· ++ [10]) ++
        (encode (connectToken 60001 (Vector.replicate 32 7)) ++ 10 :: [])) = .ok (60001, text) ∧
      parseHexKey text = some (.ok (Vector.replicate 32 7)) := by
  have hnoise : NotToken [0x6e, 0x6f, 0x69, 0x73, 0x65] := ⟨by decide, by decide⟩
  obtain ⟨hexact, htoken⟩ := key_text_exact_iff [] (List.forall_mem_singleton.mpr hnoise) 60001
    (Vector.replicate 32 7) []
  exact ⟨hexact.mpr (.inl (by decide)), htoken.mpr (List.forall_mem_singleton.mpr (by decide))⟩

/-- 64 characters, of which one is a plus sign. -/
def plusText : Text := '+' :: 'f' :: List.replicate 62 '0'

/-- 64 bytes with a character of two of them across the first cut. -/
def crossingText : Text := '0' :: 'é' :: List.replicate 61 '0'

/-- The first is accepted, and the second is a panic. -/
theorem key_text_not_exact :
    (parseHexKey plusText).map (fun r => r.toOption.isSome) = some true ∧ ¬ IsHexText plusText ∧
      parseHexKey crossingText = none ∧ ¬ ∀ s, ParsesExactly s := by
  have hplus : (parseHexKey plusText).map (fun r => r.toOption.isSome) = some true := by decide +kernel
  have hcross : parseHexKey crossingText = none := by decide +kernel
  refine ⟨hplus, fun h => absurd (h.2 '+' (List.mem_cons_self ..)) (by decide), hcross, fun h => ?_⟩
  obtain ⟨r, hr, -⟩ := h crossingText
  rw [hcross] at hr
  cases hr

end Rumsh.Client
