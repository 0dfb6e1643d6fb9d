import Mathlib.Data.List.Basic
import Mathlib.Algebra.Order.Ring.Nat

/-! Sets of numbers as bitmasks: number `i` is bit `i % w` of word `i / w`.

    `setBits` packs a list of numbers into words, as an encoder does one by one; `testWord` reads one of
    them, as a decoder does. They agree at every word boundary, whatever the width. -/

namespace Rumsh.Schemes

/-- Set one bit; a number past the last word changes nothing. -/
def setBit (w : ℕ) (mask : List ℕ) (i : ℕ) : List ℕ :=
  mask.modify (i / w) (· ||| 1 <<< (i % w))

def setBits (w : ℕ) (mask : List ℕ) (is : List ℕ) : List ℕ := is.foldl (setBit w) mask

/-- Read one bit; past the last word there is none. -/
def testWord (w : ℕ) (mask : List ℕ) (i : ℕ) : Bool :=
  match mask[i / w]? with
  | some word => word.testBit (i % w)
  | none => false

variable {w : ℕ}

theorem lt_of_testWord (hw : 0 < w) {mask : List ℕ} {i : ℕ} (h : testWord w mask i = true) :
    i < w * mask.length := by
  unfold testWord at h
  split at h
  · rename_i word hword
    have hlt : i / w < mask.length := (List.getElem?_eq_some_iff.mp hword).1
    rwa [Nat.div_lt_iff_lt_mul hw, Nat.mul_comm] at hlt
  · cases h

theorem length_setBits (is mask : List ℕ) : (setBits w mask is).length = mask.length := by
  induction is generalizing mask with
  | nil => rfl
  | cons i is ih => exact (ih (setBit w mask i)).trans (List.length_modify ..)

/-- STEP: one bit set. -/
theorem testWord_setBit (mask : List ℕ) (j : ℕ) {i : ℕ} (hi : i / w < mask.length) :
    testWord w (setBit w mask j) i = (testWord w mask i || decide (i = j)) := by
  have hsplit : i = j ↔ i / w = j / w ∧ j % w = i % w := by
    constructor
    · rintro rfl
      exact ⟨rfl, rfl⟩
    · rintro ⟨hd, hm⟩
      rw [← Nat.div_add_mod i w, ← Nat.div_add_mod j w, hd, hm]
  simp only [testWord, setBit, List.getElem?_modify, List.getElem?_eq_getElem hi]
  by_cases hd : j / w = i / w
  · simp [hd, hsplit, Nat.one_shiftLeft, Nat.testBit_two_pow]
  · have hne : i ≠ j := fun h => hd (by rw [h])
    simp [hd, hne]

/-- RUN: the bits of a packed list are its numbers. -/
theorem testWord_setBits (is : List ℕ) (mask : List ℕ) {i : ℕ} (hi : i / w < mask.length) :
    testWord w (setBits w mask is) i = (testWord w mask i || decide (i ∈ is)) := by
  induction is generalizing mask with
  | nil => simp [setBits]
  | cons j is ih =>
    have hlen : i / w < (setBit w mask j).length := by simpa [setBit] using hi
    rw [setBits, List.foldl_cons]
    refine (ih (setBit w mask j) hlen).trans ?_
    rw [testWord_setBit mask j hi, Bool.or_assoc]
    simp

theorem testWord_zero (w n i : ℕ) : testWord w (List.replicate n 0) i = false := by
  unfold testWord
  split
  · rename_i word hword
    rw [List.getElem?_replicate] at hword
    split at hword
    · cases hword
      exact Nat.zero_testBit _
    · cases hword
  · rfl

/-- Packing keeps the words within their width. -/
theorem setBits_lt (hw : 0 < w) (is : List ℕ) (mask : List ℕ) (h : ∀ word ∈ mask, word < 2 ^ w) :
    ∀ word ∈ setBits w mask is, word < 2 ^ w := by
  induction is generalizing mask with
  | nil => exact h
  | cons j is ih =>
    refine ih (setBit w mask j) fun word hword => ?_
    obtain ⟨k, hk⟩ := List.mem_iff_getElem?.mp hword
    rw [setBit, List.getElem?_modify] at hk
    obtain ⟨old, hold, rfl⟩ := Option.map_eq_some_iff.mp hk
    have hlt := h old (List.mem_of_getElem? hold)
    split
    · refine Nat.or_lt_two_pow hlt ?_
      rw [Nat.one_shiftLeft]
      exact Nat.pow_lt_pow_right Nat.one_lt_two (Nat.mod_lt _ hw)
    · exact hlt

end Rumsh.Schemes
