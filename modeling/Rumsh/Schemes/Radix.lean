import Rumsh.Schemes.Utf8

/-! Numbers as texts of digits.

    `fromStrRadix` is a parser of unsigned numbers: a plus sign may stand before the digits, either letter
    case will do, and a value above the type's bound is refused. Its grammar is wider than what a printer
    writes, so a reader that has to accept no more than that must look at the text itself. -/

namespace Rumsh.Schemes.Radix
open Utf8

/-- The value of a digit in this base. -/
def toDigit (radix : ℕ) (b : UInt8) : Option ℕ :=
  let digit :=
    if 48 ≤ b.toNat ∧ b.toNat ≤ 57 then some (b.toNat - 48)
    else if 97 ≤ b.toNat ∧ b.toNat ≤ 122 then some (b.toNat - 87)
    else if 65 ≤ b.toNat ∧ b.toNat ≤ 90 then some (b.toNat - 55)
    else none
  digit.filter (· < radix)

/-- The digits, from the value so far. -/
def parseDigits (radix max : ℕ) : ℕ → List UInt8 → Option ℕ
  | acc, [] => some acc
  | acc, b :: rest => (toDigit radix b).bind fun d =>
      if acc * radix + d ≤ max then parseDigits radix max (acc * radix + d) rest else none

def fromStrRadix (radix max : ℕ) : List UInt8 → Option ℕ
  | [] => none
  | [b] => if b = 43 ∨ b = 45 then none else parseDigits radix max 0 [b]
  | b :: rest => if b = 43 then parseDigits radix max 0 rest else parseDigits radix max 0 (b :: rest)

theorem fromStrRadix_cons_cons (radix max : ℕ) (x y : UInt8) (rest : List UInt8) :
    fromStrRadix radix max (x :: y :: rest) =
      if x = 43 then parseDigits radix max 0 (y :: rest) else parseDigits radix max 0 (x :: y :: rest) := rfl

/-- The byte of a digit. -/
def digitByte (d : ℕ) : UInt8 := UInt8.ofNat (Nat.digitChar d).toNat

variable {radix max : ℕ}

theorem parseDigits_append (xs ys : List UInt8) : ∀ acc : ℕ,
    parseDigits radix max acc (xs ++ ys) =
      (parseDigits radix max acc xs).bind fun v => parseDigits radix max v ys := by
  induction xs with
  | nil => intro acc; rfl
  | cons b xs ih =>
    intro acc
    simp only [List.cons_append, parseDigits]
    cases toDigit radix b with
    | none => rfl
    | some d =>
      simp only [Option.bind_some]
      split
      · exact ih _
      · rfl

/-! ### Decimal -/

theorem toDigit_digitByte {d : ℕ} (h : d < 10) : toDigit 10 (digitByte d) = some d := by
  have : ∀ d < 10, toDigit 10 (digitByte d) = some d := by decide
  exact this d h

/-- A decimal text is read back, if it is within the bound. -/
theorem parseDigits_toDigits {n : ℕ} (h : n ≤ max) :
    parseDigits 10 max 0 ((Nat.toDigits 10 n).map fun c => UInt8.ofNat c.toNat) = some n := by
  induction n using Nat.strongRecOn with
  | _ n ih =>
    have hone : ∀ acc d, d < 10 → acc * 10 + d = n →
        parseDigits 10 max acc [digitByte d] = some n := by
      intro acc d hd heq
      simp only [parseDigits, toDigit_digitByte hd, Option.bind_some]
      rw [if_pos (by omega), heq]
    by_cases hn : n < 10
    · rw [Nat.toDigits_of_lt_base hn]
      exact hone 0 n hn (by omega)
    · rw [Nat.toDigits_of_base_le (by decide) (by omega), List.map_append, parseDigits_append,
        ih (n / 10) (by omega) (by omega), Option.bind_some]
      exact hone (n / 10) (n % 10) (Nat.mod_lt _ (by decide)) (by omega)

/-- A number's own text starts with no sign. -/
theorem fromStrRadix_toDigits {n : ℕ} (h : n ≤ max) :
    fromStrRadix 10 max ((Nat.toDigits 10 n).map fun c => UInt8.ofNat c.toNat) = some n := by
  have hparse := parseDigits_toDigits h
  have hsign : ∀ c ∈ Nat.toDigits 10 n, UInt8.ofNat c.toNat ≠ 43 ∧ UInt8.ofNat c.toNat ≠ 45 := by
    intro c hc
    have hdigit := Nat.isDigit_of_mem_toDigits (by decide) (by decide) hc
    obtain ⟨h48, h57⟩ : 48 ≤ c.toNat ∧ c.toNat ≤ 57 := by
      rw [Char.isDigit, Bool.and_eq_true, decide_eq_true_eq, decide_eq_true_eq] at hdigit
      exact hdigit
    have hval : ∀ k < 48, UInt8.ofNat c.toNat ≠ UInt8.ofNat k := by
      intro k hk heq
      have h256 := congrArg UInt8.toNat heq
      rw [UInt8.toNat_ofNat', UInt8.toNat_ofNat'] at h256
      omega
    exact ⟨hval 43 (by decide), hval 45 (by decide)⟩
  have hne : Nat.toDigits 10 n ≠ [] := Nat.toDigits_ne_nil
  cases hdig : Nat.toDigits 10 n with
  | nil => exact absurd hdig hne
  | cons c cs =>
    rw [hdig] at hparse hsign
    obtain ⟨hplus, hminus⟩ := hsign c (List.mem_cons_self ..)
    cases cs with
    | nil =>
      rw [List.map_cons, List.map_nil, fromStrRadix, if_neg (not_or.mpr ⟨hplus, hminus⟩)]
      exact hparse
    | cons c' cs =>
      rw [List.map_cons, List.map_cons, fromStrRadix_cons_cons, if_neg hplus]
      exact hparse

/-! ### Two hexadecimal digits -/

def isHexDigit (b : UInt8) : Bool :=
  (48 ≤ b && b ≤ 57) || (97 ≤ b && b ≤ 102) || (65 ≤ b && b ≤ 70)

/-- The two digits of a byte. -/
def hexPair (b : UInt8) : List UInt8 := [digitByte (b.toNat / 16), digitByte (b.toNat % 16)]

/-- Letters in lower case. -/
def lower (b : UInt8) : UInt8 := if 65 ≤ b ∧ b ≤ 90 then b + 32 else b

/-- Every byte: its digit, if it is one, and the digit's own text. -/
theorem toDigit_hex (b : UInt8) : (isHexDigit b = true ∧ ∃ d < 16, toDigit 16 b = some d ∧
    lower b = digitByte d) ∨ (isHexDigit b = false ∧ toDigit 16 b = none) := by
  have : ∀ n < 256, (isHexDigit (UInt8.ofNat n) = true ∧ ∃ d < 16,
      toDigit 16 (UInt8.ofNat n) = some d ∧ lower (UInt8.ofNat n) = digitByte d) ∨
      (isHexDigit (UInt8.ofNat n) = false ∧ toDigit 16 (UInt8.ofNat n) = none) := by decide +kernel
  have h := this b.toNat (UInt8.toNat_lt b)
  rwa [UInt8.ofNat_toNat] at h

theorem fromStrRadix_hexPair (b : UInt8) : fromStrRadix 16 255 (hexPair b) = some b.toNat := by
  have hall : ∀ n < 256, fromStrRadix 16 255 (hexPair (UInt8.ofNat n)) = some n := by decide +kernel
  have h := hall b.toNat (UInt8.toNat_lt b)
  rwa [UInt8.ofNat_toNat] at h

theorem hexPair_injective {b b' : UInt8} (h : hexPair b = hexPair b') : b = b' := by
  have hval := fromStrRadix_hexPair b
  rw [h, fromStrRadix_hexPair, Option.some_inj] at hval
  exact UInt8.toNat_inj.mp hval.symm

/-- The texts of bytes are cut in one way. -/
theorem flatMap_hexPair_injective : ∀ {bs bs' : List UInt8},
    bs.flatMap hexPair = bs'.flatMap hexPair → bs = bs'
  | [], [], _ => rfl
  | [], b' :: bs', h => by
      rw [List.flatMap_cons] at h
      cases h
  | b :: bs, [], h => by
      rw [List.flatMap_cons] at h
      cases h
  | b :: bs, b' :: bs', h => by
      rw [List.flatMap_cons, List.flatMap_cons] at h
      obtain ⟨hb, hrest⟩ := List.append_inj h rfl
      rw [hexPair_injective hb, flatMap_hexPair_injective hrest]

/-- Of two bytes the parser accepts two digits, and a plus sign with one. -/
theorem fromStrRadix_pair (x y : UInt8) :
    (isHexDigit x = true ∧ isHexDigit y = true ∧ ∃ v < 256, fromStrRadix 16 255 [x, y] = some v ∧
      [lower x, lower y] = hexPair (UInt8.ofNat v)) ∨
    (x = 43 ∧ isHexDigit y = true ∧ ∃ v, fromStrRadix 16 255 [x, y] = some v) ∨
    (¬ (isHexDigit x = true ∧ isHexDigit y = true) ∧ ¬ (x = 43 ∧ isHexDigit y = true) ∧
      fromStrRadix 16 255 [x, y] = none) := by
  rcases toDigit_hex y with ⟨hy, e, he, hey, hley⟩ | ⟨hy, hey⟩
  · by_cases hx43 : x = 43
    · refine .inr (.inl ⟨hx43, hy, e, ?_⟩)
      rw [fromStrRadix_cons_cons, if_pos hx43, parseDigits, hey, Option.bind_some, if_pos (by omega),
        parseDigits]
      congr 1
      omega
    · rcases toDigit_hex x with ⟨hx, d, hd, hdx, hlex⟩ | ⟨hx, hdx⟩
      · refine .inl ⟨hx, hy, d * 16 + e, by omega, ?_, ?_⟩
        · rw [fromStrRadix_cons_cons, if_neg hx43, parseDigits, hdx, Option.bind_some, if_pos (by omega),
            parseDigits, hey, Option.bind_some, if_pos (by omega), parseDigits]
          congr 1
          omega
        · rw [hexPair, UInt8.toNat_ofNat', Nat.mod_eq_of_lt (by omega), hlex, hley]
          congr 2
          · omega
          · congr 1
            omega
      · refine .inr (.inr ⟨fun h => ?_, fun h => hx43 h.1, ?_⟩)
        · rw [hx] at h
          cases h.1
        · rw [fromStrRadix_cons_cons, if_neg hx43, parseDigits, hdx, Option.bind_none]
  · refine .inr (.inr ⟨fun h => ?_, fun h => ?_, ?_⟩)
    · rw [hy] at h
      cases h.2
    · rw [hy] at h
      cases h.2
    · rw [fromStrRadix_cons_cons]
      split
      · rw [parseDigits, hey, Option.bind_none]
      · rw [parseDigits]
        cases toDigit 16 x with
        | none => rfl
        | some d =>
          rw [Option.bind_some]
          split
          · rw [parseDigits, hey, Option.bind_none]
          · rfl

end Rumsh.Schemes.Radix
