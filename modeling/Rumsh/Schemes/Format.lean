import Mathlib.Data.List.Basic
import Mathlib.Data.Vector.Basic

/-! Self-delimiting byte formats: a writer, a reader, and the law that the reader takes exactly what
    the writer wrote and leaves the rest.

    The law is a field of `Format`, so a format that does not round-trip cannot be built, and each
    combinator proves it once for everything built from it. -/

namespace Rumsh.Schemes

/-- A self-delimiting format. -/
structure Format (α : Type) where
  put : α → List UInt8
  get : List UInt8 → Option (α × List UInt8)
  get_put : ∀ a rest, get (put a ++ rest) = some (a, rest)

namespace Format
variable {α β : Type}

attribute [simp] get_put

/-- A single byte, as it is. -/
def byte : Format UInt8 where
  put b := [b]
  get
    | [] => none
    | b :: rest => some (b, rest)
  get_put _ _ := rfl

def bool : Format Bool where
  put b := [if b then 1 else 0]
  get
    | 0 :: rest => some (false, rest)
    | 1 :: rest => some (true, rest)
    | _ => none
  get_put b rest := by cases b <;> rfl

/-- One format after the other. -/
def seq (f : Format α) (g : Format β) : Format (α × β) where
  put p := f.put p.1 ++ g.put p.2
  get l := do
    let (a, l) ← f.get l
    let (b, l) ← g.get l
    some ((a, b), l)
  get_put p rest := by simp [List.append_assoc]

/-- Read another type through a format, given a retraction. -/
def imap (f : Format α) (mk : α → β) (un : β → α) (h : ∀ b, mk (un b) = b) : Format β where
  put b := f.put (un b)
  get l := (f.get l).map fun (a, l) => (mk a, l)
  get_put b rest := by simp [h]

/-- A tag byte, then the value if there is one. -/
def option (f : Format α) : Format (Option α) where
  put
    | none => [0]
    | some a => 1 :: f.put a
  get
    | 0 :: rest => some (none, rest)
    | 1 :: rest => (f.get rest).map fun (a, l) => (some a, l)
    | _ => none
  get_put o rest := by cases o <;> simp

/-! ### Repetition -/

/-- Read `n` values. -/
def getN (f : Format α) : ℕ → List UInt8 → Option (List α × List UInt8)
  | 0, l => some ([], l)
  | n + 1, l => do
    let (a, l) ← f.get l
    let (as, l) ← getN f n l
    some (a :: as, l)

theorem getN_put (f : Format α) (as : List α) (rest : List UInt8) :
    f.getN as.length (as.flatMap f.put ++ rest) = some (as, rest) := by
  induction as with
  | nil => rfl
  | cons a as ih => simp [getN, List.append_assoc, ih]

/-- An array of fixed length, without a length prefix. -/
def vector (f : Format α) (n : ℕ) : Format (Vector α n) where
  put v := v.toList.flatMap f.put
  get l := do
    let (as, l) ← f.getN n l
    if h : as.length = n then some (⟨as.toArray, by simpa using h⟩, l) else none
  get_put v rest := by
    have h := getN_put f v.toList rest
    rw [Vector.length_toList] at h
    simp [h]
    exact Array.toArray_toList

/-- A list behind its length. -/
def list (len : Format ℕ) (f : Format α) : Format (List α) where
  put as := len.put as.length ++ as.flatMap f.put
  get l := do
    let (n, l) ← len.get l
    f.getN n l
  get_put as rest := by simp [List.append_assoc, getN_put]

/-! ### Numbers -/

/-- The `w` low bytes of a number, little endian. -/
def le : ℕ → ℕ → List UInt8
  | 0, _ => []
  | w + 1, n => UInt8.ofNat (n % 256) :: le w (n / 256)

/-- Read `w` bytes, little endian. -/
def getLe : ℕ → List UInt8 → Option (ℕ × List UInt8)
  | 0, l => some (0, l)
  | _ + 1, [] => none
  | w + 1, b :: l => do
    let (n, l) ← getLe w l
    some (b.toNat + 256 * n, l)

@[simp] theorem length_le (w n : ℕ) : (le w n).length = w := by
  induction w generalizing n with
  | zero => rfl
  | succ w ih => simp [le, ih]

theorem getLe_le : ∀ (w n : ℕ) (rest : List UInt8), n < 256 ^ w →
    getLe w (le w n ++ rest) = some (n, rest)
  | 0, n, rest, h => by
      obtain rfl : n = 0 := by omega
      rfl
  | w + 1, n, rest, h => by
      have hlt : n / 256 < 256 ^ w := by
        rw [Nat.div_lt_iff_lt_mul (by omega), ← pow_succ]
        exact h
      simp only [le, List.cons_append, getLe, getLe_le w (n / 256) rest hlt, Option.bind_eq_bind,
        Option.bind_some, UInt8.toNat_ofNat']
      have : n % 256 % 2 ^ 8 + 256 * (n / 256) = n := by omega
      rw [this]

theorem le_inj {w n m : ℕ} (hn : n < 256 ^ w) (hm : m < 256 ^ w) (h : le w n = le w m) : n = m := by
  have h₁ := getLe_le w n [] hn
  rw [h, getLe_le w m [] hm] at h₁
  simpa using h₁.symm

/-- The length of a run of ones. -/
def getUnary : List UInt8 → Option (ℕ × List UInt8)
  | 0 :: l => some (0, l)
  | 1 :: l => (getUnary l).map fun (n, l) => (n + 1, l)
  | _ => none

theorem getUnary_replicate (n : ℕ) (rest : List UInt8) :
    getUnary (List.replicate n 1 ++ 0 :: rest) = some (n, rest) := by
  induction n with
  | zero => rfl
  | succ n ih => simp [List.replicate_succ, getUnary, ih]

/-- A variable-length number: a byte below 251 is the number itself, 251, 252 and 253 announce two,
    four and eight little-endian bytes. The escape 255 makes the format total on the naturals; no
    64-bit number takes it. -/
def putVarint (n : ℕ) : List UInt8 :=
  if n < 251 then [UInt8.ofNat n]
  else if n < 2 ^ 16 then 251 :: le 2 n
  else if n < 2 ^ 32 then 252 :: le 4 n
  else if n < 2 ^ 64 then 253 :: le 8 n
  else 255 :: (List.replicate n 1 ++ [0])

def getVarint : List UInt8 → Option (ℕ × List UInt8)
  | [] => none
  | b :: l =>
    if b < 251 then some (b.toNat, l)
    else if b = 251 then getLe 2 l
    else if b = 252 then getLe 4 l
    else if b = 253 then getLe 8 l
    else if b = 255 then getUnary l
    else none

theorem getVarint_putVarint (n : ℕ) (rest : List UInt8) :
    getVarint (putVarint n ++ rest) = some (n, rest) := by
  unfold putVarint
  split
  · rename_i h
    have hb : UInt8.ofNat n < 251 := by
      rw [UInt8.lt_iff_toNat_lt, UInt8.toNat_ofNat', Nat.mod_eq_of_lt (by omega)]
      exact h
    simp only [List.cons_append, List.nil_append, getVarint, hb, if_true, UInt8.toNat_ofNat',
      Nat.mod_eq_of_lt (show n < 2 ^ 8 by omega)]
  · split
    · exact getLe_le 2 n rest (by omega)
    · split
      · exact getLe_le 4 n rest (by omega)
      · split
        · exact getLe_le 8 n rest (by omega)
        · show getUnary ((List.replicate n 1 ++ [0]) ++ rest) = some (n, rest)
          rw [List.append_assoc]
          exact getUnary_replicate n rest

def nat : Format ℕ where
  put := putVarint
  get := getVarint
  get_put := getVarint_putVarint

end Format

end Rumsh.Schemes
