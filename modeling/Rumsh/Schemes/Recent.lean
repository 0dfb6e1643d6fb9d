import Mathlib.Data.List.DropRight
import Mathlib.Data.List.Range

/-! A bounded record of which numbers were seen.

    `marks lo hi got` says of each number from `lo` up to `hi` whether it was seen, and `recent cap`
    keeps the last `cap` entries. A number beyond the end extends the record over the gap, a number
    behind it sets one entry; neither depends on what was cut off before. -/

namespace Rumsh.Schemes

variable {α : Type} {cap lo hi q : ℕ} {got got' : ℕ → Bool}

/-- Cutting early is no different from cutting late. -/
theorem rtake_rtake_append (l m : List α) (n : ℕ) : (l.rtake n ++ m).rtake n = (l ++ m).rtake n := by
  simp only [List.rtake, List.length_append, List.length_drop, List.drop_append, List.drop_drop]
  congr 2 <;> omega

/-- An entry set before the cut. -/
theorem rtake_set (l : List α) (n i : ℕ) (a : α) :
    (l.set i a).rtake n =
      if i < l.length - n then l.rtake n else (l.rtake n).set (i - (l.length - n)) a := by
  simp only [List.rtake, List.length_set, List.drop_set]

/-- A full queue gives up its oldest entry before it takes a new one: it holds the last `cap` of all
    that were ever pushed. -/
theorem rtake_push (hcap : 0 < cap) (l : List α) (a : α) :
    (if (l.rtake cap).length ≥ cap then (l.rtake cap).tail else l.rtake cap) ++ [a] =
      (l ++ [a]).rtake cap := by
  simp only [List.rtake, List.length_drop, List.length_append, List.length_singleton, ge_iff_le]
  by_cases hfull : cap ≤ l.length
  · rw [if_pos (by omega), ← List.drop_one, List.drop_drop, ← List.drop_append_of_le_length (by omega)]
    congr 1
    omega
  · rw [if_neg (by omega), ← List.drop_append_of_le_length (by omega)]
    congr 1
    omega

/-- In a list sorted by key, the last `cap` entries are those with fewer than `cap` above them. -/
theorem mem_rtake_iff {l : List (ℕ × α)} (hs : l.Pairwise fun e e' => e.1 < e'.1) {e : ℕ × α}
    (he : e ∈ l) : e ∈ l.rtake cap ↔ (l.filter fun e' => e.1 < e'.1).length < cap := by
  obtain ⟨pre, post, rfl⟩ := List.append_of_mem he
  obtain ⟨hpre, hpost, hcross⟩ := List.pairwise_append.mp hs
  have hbelow : ∀ x ∈ pre, x.1 < e.1 := fun x hx => hcross x hx e (List.mem_cons_self ..)
  have habove : ∀ x ∈ post, e.1 < x.1 := fun x hx => (List.pairwise_cons.mp hpost).1 x hx
  have hfilter : (pre ++ e :: post).filter (fun e' => decide (e.1 < e'.1)) = post := by
    rw [List.filter_append, List.filter_cons_of_neg (by simp),
      List.filter_eq_nil_iff.mpr fun x hx => by simpa using (hbelow x hx).le,
      List.filter_eq_self.mpr fun x hx => by simpa using habove x hx, List.nil_append]
  rw [hfilter, List.rtake, List.length_append, List.length_cons]
  constructor
  · intro hmem
    by_contra hle
    rw [show pre.length + (post.length + 1) - cap = pre.length + (post.length - cap + 1) by omega,
      ← List.drop_drop, List.drop_left, List.drop_succ_cons] at hmem
    exact lt_irrefl _ (habove e (List.mem_of_mem_drop hmem))
  · intro hlt
    rw [List.drop_append_of_le_length (by omega)]
    exact List.mem_append_right _ (List.mem_cons_self ..)

/-- Whether each number from `lo` up to `hi` was seen. -/
def marks (lo hi : ℕ) (got : ℕ → Bool) : List Bool := (List.range' lo (hi - lo)).map got

@[simp] theorem length_marks : (marks lo hi got).length = hi - lo := by simp [marks]

theorem getElem?_marks {i : ℕ} (h : lo + i < hi) : (marks lo hi got)[i]? = some (got (lo + i)) := by
  have hi' : i < hi - lo := by omega
  simp [marks, hi']

theorem marks_congr (h : ∀ n, lo ≤ n → n < hi → got' n = got n) : marks lo hi got' = marks lo hi got := by
  refine List.map_congr_left fun n hn => ?_
  rw [List.mem_range'_1] at hn
  exact h n hn.1 (by omega)

/-- A number at the end or beyond it. -/
theorem marks_extend (hlo : lo ≤ hi) (hq : hi ≤ q) (hold : ∀ n, lo ≤ n → n < hi → got' n = got n)
    (hgap : ∀ n, hi ≤ n → n < q → got' n = false) (hnew : got' q = true) :
    marks lo (q + 1) got' = marks lo hi got ++ List.replicate (q - hi) false ++ [true] := by
  have hsplit : List.range' lo (q + 1 - lo) =
      List.range' lo (hi - lo) ++ List.range' hi (q - hi) ++ [q] := by
    have h₁ := List.range'_append_1 (s := lo) (m := hi - lo) (n := q - hi)
    have h₂ := List.range'_append_1 (s := lo) (m := q - lo) (n := 1)
    rw [show lo + (hi - lo) = hi by omega, show hi - lo + (q - hi) = q - lo by omega] at h₁
    rw [show lo + (q - lo) = q by omega, show q - lo + 1 = q + 1 - lo by omega] at h₂
    rw [h₁, ← h₂, List.range'_one]
  have hmid : (List.range' hi (q - hi)).map got' = List.replicate (q - hi) false := by
    refine List.eq_replicate_iff.mpr ⟨by simp, fun b hb => ?_⟩
    obtain ⟨n, hn, rfl⟩ := List.mem_map.mp hb
    rw [List.mem_range'_1] at hn
    exact hgap n hn.1 (by omega)
  have hstart : (List.range' lo (hi - lo)).map got' = marks lo hi got := marks_congr hold
  rw [marks, hsplit, List.map_append, List.map_append, hstart, hmid, List.map_singleton, hnew]

/-- A number before the end. -/
theorem marks_correct (hlo : lo ≤ q) (hold : ∀ n, n ≠ q → got' n = got n) (hnew : got' q = true) :
    marks lo hi got' = (marks lo hi got).set (q - lo) true := by
  refine List.ext_getElem? fun i => ?_
  rw [List.getElem?_set]
  by_cases hi' : lo + i < hi
  · rw [getElem?_marks hi', getElem?_marks hi', length_marks]
    by_cases hq : q - lo = i
    · rw [if_pos hq, if_pos (by omega), show lo + i = q by omega, hnew]
    · rw [if_neg hq, hold (lo + i) (by omega)]
  · have hnone : ∀ got, (marks lo hi got)[i]? = none := fun got => by
      rw [List.getElem?_eq_none_iff, length_marks]
      omega
    rw [hnone, hnone, length_marks]
    by_cases hq : q - lo = i
    · rw [if_pos hq, if_neg (by omega)]
    · rw [if_neg hq]

/-- The last `cap` entries. -/
def recent (cap lo hi : ℕ) (got : ℕ → Bool) : List Bool := (marks lo hi got).rtake cap

theorem length_recent : (recent cap lo hi got).length = min cap (hi - lo) := by
  simp only [recent, List.rtake, List.length_drop, length_marks]
  omega

/-- The entry of a number that is still recorded. -/
theorem getElem?_recent (hlo : lo ≤ hi) {n : ℕ} (hn : hi - min cap (hi - lo) ≤ n) (hn' : n < hi) :
    (recent cap lo hi got)[n - (hi - min cap (hi - lo))]? = some (got n) := by
  simp only [recent, List.rtake, List.getElem?_drop, length_marks]
  have hat : hi - lo - cap + (n - (hi - min cap (hi - lo))) = n - lo := by omega
  rw [hat, getElem?_marks (by omega), show lo + (n - lo) = n by omega]

theorem recent_extend (hlo : lo ≤ hi) (hq : hi ≤ q) (hold : ∀ n, lo ≤ n → n < hi → got' n = got n)
    (hgap : ∀ n, hi ≤ n → n < q → got' n = false) (hnew : got' q = true) :
    (recent cap lo hi got ++ (List.replicate (q - hi) false ++ [true])).rtake cap =
      recent cap lo (q + 1) got' := by
  rw [recent, rtake_rtake_append, recent, marks_extend hlo hq hold hgap hnew, List.append_assoc]

/-- A number behind the end is found by its distance from it, or is no longer recorded. -/
theorem recent_correct (hq : q < hi) (hold : ∀ n, n ≠ q → got' n = got n) (hnew : got' q = true) :
    (if hi - 1 - q < (recent cap lo hi got).length
      then (recent cap lo hi got).set ((recent cap lo hi got).length - 1 - (hi - 1 - q)) true
      else recent cap lo hi got) = recent cap lo hi got' := by
  rw [length_recent]
  by_cases hlo : lo ≤ q
  · rw [recent, recent, marks_correct hlo hold hnew, rtake_set, length_marks]
    by_cases hcut : q - lo < hi - lo - cap
    · rw [if_pos hcut, if_neg (by omega)]
    · rw [if_neg hcut, if_pos (by omega)]
      congr 1
      omega
  · rw [if_neg (by omega), recent, recent, marks_congr fun n hn _ => hold n (by omega)]

end Rumsh.Schemes
