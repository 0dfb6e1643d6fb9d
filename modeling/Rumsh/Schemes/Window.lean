import Mathlib.Data.List.Range
import Mathlib.Tactic.Push
import Std.Data.TreeMap

/-! A cumulative receive window: the next number expected and a table of those that came early.

    `drain` takes the consecutive run of early values out of the table. `Window val c got` is the
    invariant of a receiver that started after `c`, of values `val s` under each number `s`, when `got`
    are the numbers that have arrived: the expected one is the least number after `c` that has not, and
    the table holds exactly those that arrived above it. -/

namespace Rumsh.Schemes
open Std

variable {α : Type}

/-- `while let Some(a) = held.remove(&expected) { expected += 1 }`, the values in order. -/
def drain : ℕ → TreeMap ℕ α → ℕ → List (ℕ × α) × TreeMap ℕ α × ℕ
  | 0, held, expected => ([], held, expected)
  | fuel + 1, held, expected =>
    match held[expected]? with
    | none => ([], held, expected)
    | some a =>
      let (out, held', expected') := drain fuel (held.erase expected) (expected + 1)
      ((expected, a) :: out, held', expected')

/-- The numbers that come out are consecutive. -/
theorem drain_numbers (fuel : ℕ) : ∀ (held : TreeMap ℕ α) (e : ℕ),
    (drain fuel held e).1.map Prod.fst = List.range' e (drain fuel held e).1.length ∧
      (drain fuel held e).2.2 = e + (drain fuel held e).1.length := by
  induction fuel with
  | zero => intro held e; simp [drain]
  | succ fuel ih =>
    intro held e
    unfold drain
    split
    · simp
    · obtain ⟨h₁, h₂⟩ := ih (held.erase e) (e + 1)
      simp only [List.map_cons, List.length_cons, List.range'_succ, h₁, h₂, true_and]
      omega

theorem length_drain_le (fuel : ℕ) : ∀ (held : TreeMap ℕ α) (e : ℕ),
    (drain fuel held e).1.length ≤ fuel := by
  induction fuel with
  | zero => intro held e; simp [drain]
  | succ fuel ih =>
    intro held e
    unfold drain
    split
    · exact Nat.zero_le _
    · exact Nat.succ_le_succ (ih (held.erase e) (e + 1))

/-- Each value that comes out was in the table under its number. -/
theorem drain_mem (fuel : ℕ) : ∀ (held : TreeMap ℕ α) (e : ℕ) (p : ℕ × α),
    p ∈ (drain fuel held e).1 → held[p.1]? = some p.2 := by
  induction fuel with
  | zero => intro held e p h; simp [drain] at h
  | succ fuel ih =>
    intro held e p h
    unfold drain at h
    split at h
    · simp at h
    · rename_i a ha
      rcases List.mem_cons.mp h with rfl | h
      · exact ha
      · have := ih _ _ p h
        rw [TreeMap.getElem?_erase] at this
        split at this
        · cases this
        · exact this

/-- What stays in the table is what was not taken out. -/
theorem getElem?_drain (fuel : ℕ) : ∀ (held : TreeMap ℕ α) (e s : ℕ),
    (drain fuel held e).2.1[s]? =
      if e ≤ s ∧ s < (drain fuel held e).2.2 then none else held[s]? := by
  induction fuel with
  | zero =>
    intro held e s
    exact (if_neg (show ¬ (e ≤ s ∧ s < e) by omega)).symm
  | succ fuel ih =>
    intro held e s
    have hlen := (drain_numbers fuel (held.erase e) (e + 1)).2
    unfold drain
    split
    · rw [if_neg (by show ¬ (e ≤ s ∧ s < e); omega)]
    · rw [ih, TreeMap.getElem?_erase]
      simp only [hlen, Nat.compare_eq_eq]
      rcases Nat.lt_trichotomy s e with h | rfl | h
      · rw [if_neg (by omega), if_neg (by omega), if_neg (by omega)]
      · simp only [if_true, ite_self]
        rw [if_pos (by omega)]
      · by_cases hlt : s < e + 1 + (drain fuel (held.erase e) (e + 1)).1.length
        · rw [if_pos ⟨by omega, hlt⟩, if_pos ⟨by omega, hlt⟩]
        · rw [if_neg (by omega), if_neg (by omega), if_neg (by omega)]

/-- With the table's size as fuel the loop runs to its end. -/
theorem drain_exhausted (fuel : ℕ) : ∀ (held : TreeMap ℕ α) (e : ℕ), held.size ≤ fuel →
    (drain fuel held e).2.1[(drain fuel held e).2.2]? = none := by
  induction fuel with
  | zero =>
    intro held e h
    refine TreeMap.getElem?_of_isEmpty ?_
    rw [TreeMap.isEmpty_eq_size_eq_zero, beq_iff_eq]
    exact Nat.le_zero.mp h
  | succ fuel ih =>
    intro held e h
    unfold drain
    split
    · assumption
    · rename_i a ha
      refine ih _ _ ?_
      have hmem : held.contains e = true := by
        rw [← TreeMap.mem_iff_contains, TreeMap.mem_iff_isSome_getElem?, ha]
        rfl
      rw [TreeMap.size_erase, if_pos hmem]
      omega

/-! ### The invariant -/

/-- A receiver that started after `c` and has been handed the numbers `got`. -/
structure Window (val : ℕ → α) (c : ℕ) (got : ℕ → Prop) (expected : ℕ) (held : TreeMap ℕ α) : Prop where
  start : c < expected
  below : ∀ s, c < s → s < expected → got s
  next : ¬ got expected
  table : ∀ s a, held[s]? = some a ↔ expected < s ∧ got s ∧ a = val s

namespace Window
variable {val : ℕ → α} {c : ℕ} {got : ℕ → Prop} {expected : ℕ} {held : TreeMap ℕ α}

theorem init (val : ℕ → α) (c : ℕ) : Window val c (fun _ => False) (c + 1) ∅ :=
  ⟨Nat.lt_succ_self c, fun s h₁ h₂ => by omega, not_false, by simp⟩

theorem congr {got' : ℕ → Prop} (h : Window val c got expected held) (hg : ∀ s, got s ↔ got' s) :
    Window val c got' expected held := by
  obtain rfl : got = got' := funext fun s => propext (hg s)
  exact h

/-- A number below the expected one has arrived before. -/
theorem duplicate (h : Window val c got expected held) {s : ℕ} (hc : c < s) (hs : s < expected) :
    Window val c (fun t => t = s ∨ got t) expected held := by
  refine h.congr fun t => ⟨.inr, ?_⟩
  rintro (rfl | ht)
  · exact h.below t hc hs
  · exact ht

/-- A number above the expected one goes into the table. -/
theorem buffer (h : Window val c got expected held) {s : ℕ} (hs : expected < s) :
    Window val c (fun t => t = s ∨ got t) expected (held.insert s (val s)) := by
  refine ⟨h.start, fun t h₁ h₂ => .inr (h.below t h₁ h₂), ?_, fun t a => ?_⟩
  · rintro (rfl | ht)
    · omega
    · exact h.next ht
  · rw [TreeMap.getElem?_insert]
    simp only [Nat.compare_eq_eq]
    by_cases hts : s = t
    · subst hts
      simp [hs, eq_comm]
    · rw [if_neg hts, h.table]
      simp [Ne.symm hts]

/-- The expected number comes out, followed by the run of the table after it. -/
theorem fill (h : Window val c got expected held) {fuel : ℕ} (hfuel : held.size ≤ fuel) :
    let r := drain fuel held (expected + 1)
    Window val c (fun t => t = expected ∨ got t) r.2.2 r.2.1 ∧
      (expected, val expected) :: r.1 =
        (List.range' expected (r.2.2 - expected)).map fun s => (s, val s) := by
  intro r
  have hnum : r.1.map Prod.fst = List.range' (expected + 1) r.1.length :=
    (drain_numbers fuel held (expected + 1)).1
  have hlen : r.2.2 = expected + 1 + r.1.length := (drain_numbers fuel held (expected + 1)).2
  have hout : r.1 = (List.range' (expected + 1) r.1.length).map fun s => (s, val s) := by
    rw [← hnum, List.map_map]
    refine (List.map_id _).symm.trans (List.map_congr_left fun p hp => ?_)
    have := ((h.table p.1 p.2).mp (drain_mem fuel held (expected + 1) p hp)).2.2
    simp [← this]
  have hgot : ∀ s, expected < s → s < r.2.2 → got s := by
    intro s h₁ h₂
    have hmem : (s, val s) ∈ r.1 := by
      rw [hout, List.mem_map]
      exact ⟨s, by rw [List.mem_range'_1]; omega, rfl⟩
    exact ((h.table s (val s)).mp (drain_mem fuel held (expected + 1) _ hmem)).2.1
  have hrest : ∀ s, r.2.1[s]? = if expected + 1 ≤ s ∧ s < r.2.2 then none else held[s]? :=
    getElem?_drain fuel held (expected + 1)
  have hnone : r.2.1[r.2.2]? = none := drain_exhausted fuel held (expected + 1) hfuel
  -- had the number after the run arrived, the loop would have taken it
  have hnext : ¬ got r.2.2 := by
    intro hg
    rw [hrest, if_neg (by omega)] at hnone
    have := (h.table r.2.2 (val r.2.2)).mpr ⟨by omega, hg, rfl⟩
    rw [hnone] at this
    cases this
  refine ⟨⟨by have := h.start; omega, fun s h₁ h₂ => ?_, ?_, fun s a => ?_⟩, ?_⟩
  · rcases Nat.lt_trichotomy s expected with hs | rfl | hs
    · exact .inr (h.below s h₁ hs)
    · exact .inl rfl
    · exact .inr (hgot s hs h₂)
  · rintro (heq | hg)
    · omega
    · exact hnext hg
  · rw [hrest]
    split
    · simp only [reduceCtorEq, false_iff]
      rintro ⟨h₁, -, -⟩
      omega
    · rw [h.table]
      constructor
      · rintro ⟨h₁, h₂, h₃⟩
        have : s ≠ r.2.2 := fun heq => hnext (heq ▸ h₂)
        exact ⟨by omega, .inr h₂, h₃⟩
      · rintro ⟨h₁, h₂ | h₂, h₃⟩
        · omega
        · exact ⟨by omega, h₂, h₃⟩
  · have : r.2.2 - expected = r.1.length + 1 := by omega
    rw [this, List.range'_succ, List.map_cons, ← hout]

/-- What has arrived determines the expected number. -/
theorem expected_unique (h : Window val c got expected held) {expected' : ℕ} {held' : TreeMap ℕ α}
    (h' : Window val c got expected' held') : expected = expected' := by
  rcases Nat.lt_trichotomy expected expected' with hlt | heq | hgt
  · exact absurd (h'.below expected h.start hlt) h.next
  · exact heq
  · exact absurd (h.below expected' h'.start hgt) h'.next

end Window

/-! ### What has arrived, whatever the values -/

/-- The number is below the expected one or waits in the table. -/
def Has (expected : ℕ) (held : TreeMap ℕ α) (s : ℕ) : Prop := s < expected ∨ s ∈ held

/-- The table holds only what came early. -/
def Ahead (expected : ℕ) (held : TreeMap ℕ α) : Prop := ∀ s ∈ held, expected < s

variable {expected : ℕ} {held : TreeMap ℕ α}

theorem ahead_empty (expected : ℕ) : Ahead expected (∅ : TreeMap ℕ α) := fun s hs => by simp at hs

theorem Ahead.insert (h : Ahead expected held) {s : ℕ} (hs : expected < s) (a : α) :
    Ahead expected (held.insert s a) := by
  intro t ht
  rcases TreeMap.mem_insert.mp ht with heq | ht
  · rw [Nat.compare_eq_eq] at heq
    exact heq ▸ hs
  · exact h t ht

theorem Has.insert {s t : ℕ} (h : Has expected held t) (a : α) : Has expected (held.insert s a) t :=
  h.imp_right fun ht => TreeMap.mem_insert.mpr (.inr ht)

/-- What the loop takes out of the table is below the number it stops at. -/
theorem mem_drain {fuel s : ℕ} :
    s ∈ (drain fuel held expected).2.1 ↔
      s ∈ held ∧ ¬ (expected ≤ s ∧ s < (drain fuel held expected).2.2) := by
  rw [TreeMap.mem_iff_isSome_getElem?, TreeMap.mem_iff_isSome_getElem?, getElem?_drain]
  split
  · rename_i hin
    simp [hin]
  · rename_i hout
    exact ⟨fun h => ⟨h, hout⟩, And.left⟩

theorem le_drain (fuel : ℕ) (held : TreeMap ℕ α) (expected : ℕ) :
    expected ≤ (drain fuel held expected).2.2 := by
  rw [(drain_numbers fuel held expected).2]
  exact Nat.le_add_right _ _

/-- Filling the gap at the expected number keeps all that has arrived. -/
theorem Has.drain {s : ℕ} (h : Has expected held s) (fuel : ℕ) :
    Has (drain fuel held (expected + 1)).2.2 (drain fuel held (expected + 1)).2.1 s := by
  have hle := le_drain fuel held (expected + 1)
  by_cases hs : s < (Schemes.drain fuel held (expected + 1)).2.2
  · exact .inl hs
  · refine .inr (mem_drain.mpr ⟨?_, fun hin => hs hin.2⟩)
    rcases h with hlt | hmem
    · omega
    · exact hmem

theorem Ahead.drain (h : Ahead expected held) {fuel : ℕ} (hfuel : held.size ≤ fuel) :
    Ahead (drain fuel held (expected + 1)).2.2 (drain fuel held (expected + 1)).2.1 := by
  intro s hs
  obtain ⟨hmem, hout⟩ := mem_drain.mp hs
  have hlt := h s hmem
  -- the number the loop stops at is not in the table
  have hne : s ≠ (Schemes.drain fuel held (expected + 1)).2.2 := by
    rintro rfl
    have hnone := drain_exhausted fuel held (expected + 1) hfuel
    rw [TreeMap.mem_iff_isSome_getElem?, hnone] at hs
    cases hs
  omega

/-- GAPLESS: when everything up to `n` has arrived, the expected number is beyond `n`. -/
theorem Ahead.lt_of_has (h : Ahead expected held) {n : ℕ}
    (hall : ∀ s, expected ≤ s → s ≤ n → Has expected held s) : n < expected := by
  refine Nat.lt_of_not_le fun hle => ?_
  rcases hall expected (Nat.le_refl _) hle with hlt | hmem
  · exact Nat.lt_irrefl _ hlt
  · exact Nat.lt_irrefl _ (h expected hmem)

/-! ### Sorted by number -/

/-- A list sorted by number is its part up to `b` and its part above. -/
theorem filter_le_append_filter_lt {num : α → ℕ} {l : List α} (h : l.Pairwise fun x y => num x < num y)
    (b : ℕ) : (l.filter fun x => decide (num x ≤ b)) ++ (l.filter fun x => decide (b < num x)) = l := by
  induction l with
  | nil => rfl
  | cons a l ih =>
    obtain ⟨ha, hl⟩ := List.pairwise_cons.mp h
    by_cases hle : num a ≤ b
    · have hnot : ¬ b < num a := Nat.not_lt.mpr hle
      simp only [List.filter_cons, hle, hnot, decide_true, decide_false, if_true, Bool.false_eq_true,
        if_false, List.cons_append, ih hl]
    · have hall : ∀ x ∈ a :: l, b < num x := by
        intro x hx
        rcases List.mem_cons.mp hx with rfl | hx
        · exact Nat.not_le.mp hle
        · exact (Nat.not_le.mp hle).trans (ha x hx)
      rw [List.filter_eq_nil_iff.mpr, List.nil_append, List.filter_eq_self.mpr]
      · exact fun x hx => decide_eq_true (hall x hx)
      · exact fun x hx => by simpa using hall x hx

end Rumsh.Schemes
