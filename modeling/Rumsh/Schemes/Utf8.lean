import Mathlib.Data.List.Basic

/-! Texts and their UTF-8 bytes.

    A text is its list of characters, and `encode` is what a program holds of it. Where a slice of the
    bytes may be cut without leaving a torn character is read off one byte, `IsBoundary`; it is the same
    as the end of a prefix of the text. -/

namespace Rumsh.Schemes.Utf8

abbrev Text := List Char

def encode (s : Text) : List UInt8 := s.flatMap String.utf8EncodeChar

/-- The bytes of some text. -/
def IsUtf8 (b : List UInt8) : Prop := ∃ s, encode s = b

def decode (b : List UInt8) : Option Text := b.toByteArray.utf8Decode?.map Array.toList

/-- The character the bytes start with. -/
def firstChar (b : List UInt8) : Option Char := b.toByteArray.utf8DecodeChar? 0

@[simp] theorem encode_nil : encode [] = [] := rfl

theorem encode_cons (c : Char) (s : Text) : encode (c :: s) = String.utf8EncodeChar c ++ encode s := rfl

theorem encode_append (s t : Text) : encode (s ++ t) = encode s ++ encode t := List.flatMap_append

theorem toByteArray_encode (s : Text) : (encode s).toByteArray = s.utf8Encode := rfl

@[simp] theorem decode_encode (s : Text) : decode (encode s) = some s := by
  rw [decode, toByteArray_encode, List.utf8Decode?_utf8Encode]
  rfl

theorem encode_injective {s t : Text} (h : encode s = encode t) : s = t := by
  have hd := congrArg decode h
  rwa [decode_encode, decode_encode, Option.some_inj] at hd

theorem decode_eq_some {b : List UInt8} {s : Text} : decode b = some s ↔ encode s = b := by
  constructor
  · intro h
    obtain ⟨a, ha, rfl⟩ := Option.map_eq_some_iff.mp h
    obtain ⟨t, ht⟩ := ByteArray.isSome_utf8Decode?_iff.mp (Option.isSome_of_mem ha)
    have hbytes : b = encode t := by
      have := congrArg (fun x => x.data.toList) ht
      simpa [encode, List.utf8Encode] using this
    rw [hbytes] at ha
    rw [toByteArray_encode, List.utf8Decode?_utf8Encode, Option.some_inj] at ha
    rw [← ha, hbytes]
  · rintro rfl
    exact decode_encode s

theorem isUtf8_encode (s : Text) : IsUtf8 (encode s) := ⟨s, rfl⟩

theorem isUtf8_iff {b : List UInt8} : IsUtf8 b ↔ (decode b).isSome = true := by
  rw [Option.isSome_iff_exists]
  exact exists_congr fun s => decode_eq_some.symm

instance (b : List UInt8) : Decidable (IsUtf8 b) := decidable_of_iff _ isUtf8_iff.symm

/-! ### Boundaries -/

/-- A byte in the middle of a character. -/
def isContinuation (b : UInt8) : Bool := 0x80 ≤ b && b < 0xC0

theorem isContinuation_ofNat {n : ℕ} (h : n < 256) :
    isContinuation (UInt8.ofNat n) = true ↔ 0x80 ≤ n ∧ n < 0xC0 := by
  simp [isContinuation, UInt8.le_iff_toNat_le, UInt8.lt_iff_toNat_lt, Nat.mod_eq_of_lt h]

/-- A character is a first byte and up to three continuations. -/
theorem encodeChar_eq (c : Char) : ∃ b rest, String.utf8EncodeChar c = b :: rest ∧
    isContinuation b = false ∧ (∀ x ∈ rest, isContinuation x = true) ∧ rest.length < 4 := by
  have hcont : ∀ n : ℕ, isContinuation (UInt8.ofNat (n % 0x40 + 0x80)) = true := fun n =>
    (isContinuation_ofNat (by omega)).mpr (by omega)
  have hfirst : ∀ n : ℕ, n < 256 → ¬ (0x80 ≤ n ∧ n < 0xC0) → isContinuation (UInt8.ofNat n) = false :=
    fun n hn h => Bool.eq_false_iff.mpr fun ht => h ((isContinuation_ofNat hn).mp ht)
  unfold String.utf8EncodeChar
  dsimp only
  generalize c.val.toNat = v
  have hmore : ∀ (n : ℕ) (rest : List UInt8), (∀ x ∈ rest, isContinuation x = true) →
      ∀ x ∈ UInt8.ofNat (n % 0x40 + 0x80) :: rest, isContinuation x = true := fun n rest h =>
    List.forall_mem_cons.mpr ⟨hcont n, h⟩
  have h0 : ∀ x ∈ ([] : List UInt8), isContinuation x = true := fun _ hx => nomatch hx
  have h1 := hmore v [] h0
  have h2 := hmore (v / 64) _ h1
  have h3 := hmore (v / 4096) _ h2
  split
  · exact ⟨_, _, rfl, hfirst _ (by omega) (by omega), h0, by simp⟩
  split
  · exact ⟨_, _, rfl, hfirst _ (by omega) (by omega), h1, by simp⟩
  split
  · exact ⟨_, _, rfl, hfirst _ (by omega) (by omega), h2, by simp⟩
  · exact ⟨_, _, rfl, hfirst _ (by omega) (by omega), h3, by simp⟩

theorem encodeChar_length_pos (c : Char) : 0 < (String.utf8EncodeChar c).length := by
  obtain ⟨b, rest, h, -⟩ := encodeChar_eq c
  simp [h]

/-- The ends of the bytes, and the places before a byte that continues no character. -/
def IsBoundary (b : List UInt8) (i : ℕ) : Prop :=
  i = 0 ∨ i = b.length ∨ ∃ x, b[i]? = some x ∧ isContinuation x = false

/-- Inside the first character there is no boundary but its start. -/
theorem not_isBoundary_of_lt {c : Char} {s : Text} {i : ℕ} (h0 : i ≠ 0)
    (h : i < (String.utf8EncodeChar c).length) : ¬ IsBoundary (encode (c :: s)) i := by
  obtain ⟨b, rest, hc, -, hrest, -⟩ := encodeChar_eq c
  rw [encode_cons]
  rintro (hi | hi | ⟨x, hx, hxc⟩)
  · exact h0 hi
  · rw [List.length_append] at hi
    omega
  · rw [List.getElem?_append_left h, hc] at hx
    obtain ⟨j, rfl⟩ := Nat.exists_eq_succ_of_ne_zero h0
    have hmem : x ∈ rest := List.mem_of_getElem? (i := j) (by simpa using hx)
    rw [hrest x hmem] at hxc
    cases hxc

/-- Past the first character, boundaries are those of the rest. -/
theorem isBoundary_cons {c : Char} {s : Text} {i : ℕ} :
    IsBoundary (encode (c :: s)) ((String.utf8EncodeChar c).length + i) ↔ IsBoundary (encode s) i := by
  have hpos := encodeChar_length_pos c
  have hget : (encode (c :: s))[(String.utf8EncodeChar c).length + i]? = (encode s)[i]? := by
    rw [encode_cons, List.getElem?_append_right (by omega), Nat.add_sub_cancel_left]
  have hfirst : i = 0 → s ≠ [] → ∃ x, (encode s)[i]? = some x ∧ isContinuation x = false := by
    rintro rfl hs
    cases s with
    | nil => exact absurd rfl hs
    | cons d s =>
      obtain ⟨b, rest, hd, hb, -⟩ := encodeChar_eq d
      exact ⟨b, by simp [encode_cons, hd], hb⟩
  unfold IsBoundary
  rw [hget, encode_cons, List.length_append]
  constructor
  · rintro (h | h | h)
    · omega
    · exact .inr (.inl (by omega))
    · exact .inr (.inr h)
  · rintro (h | h | h)
    · by_cases hs : s = []
      · subst hs
        exact .inr (.inl (by simpa using h))
      · exact .inr (.inr (hfirst h hs))
    · exact .inr (.inl (by omega))
    · exact .inr (.inr h)

/-- BOUNDARY: the bytes of a text may be cut exactly at the ends of its prefixes. -/
theorem isBoundary_encode_iff {s : Text} {i : ℕ} :
    IsBoundary (encode s) i ↔ ∃ t, t <+: s ∧ (encode t).length = i := by
  induction s generalizing i with
  | nil =>
    constructor
    · rintro (rfl | rfl | ⟨x, hx, -⟩)
      · exact ⟨[], List.nil_prefix, rfl⟩
      · exact ⟨[], List.nil_prefix, rfl⟩
      · simp at hx
    · rintro ⟨t, ht, rfl⟩
      rw [List.prefix_nil.mp ht]
      exact .inl rfl
  | cons c s ih =>
    by_cases h0 : i = 0
    · subst h0
      exact iff_of_true (.inl rfl) ⟨[], List.nil_prefix, rfl⟩
    by_cases hlt : i < (String.utf8EncodeChar c).length
    · refine iff_of_false (not_isBoundary_of_lt h0 hlt) ?_
      rintro ⟨t, ht, hlen⟩
      cases t with
      | nil => exact h0 hlen.symm
      | cons d t =>
        obtain ⟨rfl, -⟩ := List.cons_prefix_cons.mp ht
        rw [encode_cons, List.length_append] at hlen
        omega
    · obtain ⟨j, rfl⟩ := Nat.exists_eq_add_of_le (Nat.not_lt.mp hlt)
      rw [isBoundary_cons, ih]
      constructor
      · rintro ⟨t, ht, hlen⟩
        exact ⟨c :: t, List.cons_prefix_cons.mpr ⟨rfl, ht⟩, by rw [encode_cons, List.length_append, hlen]⟩
      · rintro ⟨t, ht, hlen⟩
        cases t with
        | nil => exact absurd hlen.symm h0
        | cons d t =>
          obtain ⟨rfl, hts⟩ := List.cons_prefix_cons.mp ht
          rw [encode_cons, List.length_append] at hlen
          exact ⟨t, hts, by omega⟩

/-! ### ASCII -/

/-- A character below 128 is one byte, its number. -/
theorem encodeChar_ascii {c : Char} (h : c.toNat < 128) :
    String.utf8EncodeChar c = [UInt8.ofNat c.toNat] := by
  have hle : c.val.toNat ≤ 0x7f := by
    have : c.val.toNat < 128 := h
    omega
  unfold String.utf8EncodeChar
  rw [if_pos hle]
  rfl

theorem encode_ascii {s : Text} (h : ∀ c ∈ s, c.toNat < 128) :
    encode s = s.map fun c => UInt8.ofNat c.toNat := by
  induction s with
  | nil => rfl
  | cons c s ih =>
    rw [encode_cons, encodeChar_ascii (h c (List.mem_cons_self ..)),
      ih fun d hd => h d (List.mem_cons_of_mem _ hd)]
    rfl

/-- Only such a character starts with a byte below 128. -/
theorem ascii_of_encodeChar {c : Char} {b : UInt8} {rest : List UInt8}
    (h : String.utf8EncodeChar c = b :: rest) (hb : b.toNat < 128) : c.toNat < 128 := by
  by_contra hc
  have hgt : ¬ c.val.toNat ≤ 0x7f := by
    have : ¬ c.val.toNat < 128 := hc
    omega
  have hfirst : ∀ n : ℕ, 128 ≤ n % 256 → UInt8.ofNat n = b → False := by
    rintro n hn rfl
    rw [UInt8.toNat_ofNat'] at hb
    omega
  unfold String.utf8EncodeChar at h
  dsimp only at h
  rw [if_neg hgt] at h
  split at h
  · exact hfirst _ (by omega) (List.cons.inj h).1
  split at h
  · exact hfirst _ (by omega) (List.cons.inj h).1
  · exact hfirst _ (by omega) (List.cons.inj h).1

theorem ascii_of_encode {s : Text} (h : ∀ b ∈ encode s, b.toNat < 128) : ∀ c ∈ s, c.toNat < 128 := by
  intro c hc
  obtain ⟨b, rest, hb, -⟩ := encodeChar_eq c
  have hmem : b ∈ encode s := List.mem_flatMap.mpr ⟨c, hc, by simp [hb]⟩
  exact ascii_of_encodeChar hb (h b hmem)

/-- After a byte below 128 there is a boundary again. -/
theorem isBoundary_succ {s : Text} {i : ℕ} {b : UInt8} (hi : IsBoundary (encode s) i)
    (hget : (encode s)[i]? = some b) (hb : b.toNat < 128) : IsBoundary (encode s) (i + 1) := by
  obtain ⟨t, ⟨u, rfl⟩, rfl⟩ := isBoundary_encode_iff.mp hi
  rw [encode_append, List.getElem?_append_right (Nat.le_refl _), Nat.sub_self] at hget
  cases u with
  | nil => simp at hget
  | cons c u =>
    obtain ⟨b', rest, hc, -⟩ := encodeChar_eq c
    rw [encode_cons, hc, List.cons_append, List.getElem?_cons_zero, Option.some_inj] at hget
    have hone := encodeChar_ascii (ascii_of_encodeChar hc (hget ▸ hb))
    refine isBoundary_encode_iff.mpr ⟨t ++ [c], ⟨u, by simp⟩, ?_⟩
    rw [encode_append, encode_cons, hone, List.length_append]
    rfl

/-! ### Words -/

/-- The characters with the Unicode property White_Space. -/
def isWhitespace (c : Char) : Bool :=
  c.toNat ∈ [0x9, 0xA, 0xB, 0xC, 0xD, 0x20, 0x85, 0xA0, 0x1680, 0x2028, 0x2029, 0x202F, 0x205F, 0x3000] ∨
    0x2000 ≤ c.toNat ∧ c.toNat ≤ 0x200A

/-- The words between white space. -/
def splitWhitespace (s : Text) : List Text := (s.splitOnP isWhitespace).filter (· ≠ [])

/-- The text without white space at its ends. -/
def trim (s : Text) : Text := ((s.dropWhile isWhitespace).reverse.dropWhile isWhitespace).reverse

end Rumsh.Schemes.Utf8
