import Mathlib.Algebra.Order.Group.Nat
import Rumsh.Schemes.Run

/-! Pauses between the firings of a system.

    A firing is a time together with the pause it kept since the one before. `firings` collects those of
    a run; when each keeps its pause after a time that the state remembers, they are `Spaced`, and
    spaced firings are few in every window. -/

namespace Rumsh.Schemes

/-! ### Spaced firings -/

/-- Each firing comes at least its pause after every earlier one. -/
def Spaced (l : List (ℕ × ℕ)) : Prop := l.Pairwise fun f f' => f.1 + f'.2 ≤ f'.1

/-- The firings with a pause of at least `d` that fall into the window of length `w` from `a` on. -/
def within (d a w : ℕ) (l : List (ℕ × ℕ)) : List (ℕ × ℕ) :=
  l.filter fun f => d ≤ f.2 ∧ a ≤ f.1 ∧ f.1 < a + w

/-- COUNT: with pauses of at least `d` there are at most `⌈w / d⌉` firings in a window of length `w`. -/
theorem length_within {d : ℕ} (hd : 0 < d) : ∀ {l : List (ℕ × ℕ)}, Spaced l → ∀ a w : ℕ,
    (within d a w l).length ≤ (w + d - 1) / d
  | [], _, _, _ => Nat.zero_le _
  | f :: l, h, a, w => by
      obtain ⟨hf, hl⟩ := List.pairwise_cons.mp h
      by_cases hin : d ≤ f.2 ∧ a ≤ f.1 ∧ f.1 < a + w
      · -- the others come later by `d` at least, so they are in what is left of the window
        have hsub : (within d a w l).length ≤ (within d (a + d) (w - d) l).length := by
          rw [within, within, ← List.countP_eq_length_filter, ← List.countP_eq_length_filter]
          refine List.countP_mono_left fun f' hmem hp => ?_
          have hle := hf f' hmem
          have hp := of_decide_eq_true hp
          exact decide_eq_true (by omega)
        have hrest := hsub.trans (length_within hd hl (a + d) (w - d))
        have hstep : (w - d + d - 1) / d + 1 ≤ (w + d - 1) / d := by
          rcases Nat.lt_or_ge w d with hw | hw
          · rw [Nat.sub_eq_zero_of_le hw.le, Nat.zero_add, Nat.div_eq_of_lt (Nat.sub_lt hd Nat.one_pos)]
            exact (Nat.one_le_div_iff hd).mpr (by omega)
          · rw [← Nat.add_div_right _ hd]
            exact Nat.div_le_div_right (by omega)
        rw [within, List.filter_cons_of_pos (by simpa using hin), List.length_cons]
        exact (Nat.succ_le_succ hrest).trans hstep
      · rw [within, List.filter_cons_of_neg (by simpa using hin)]
        exact length_within hd hl a w

/-! ### Firings of a run -/

variable {S E : Type} {step : S → E → Option S} {fires : S → E → Option (ℕ × ℕ)}

/-- The firings of a run, in order. -/
def firings (step : S → E → Option S) (fires : S → E → Option (ℕ × ℕ)) : S → List E → List (ℕ × ℕ)
  | _, [] => []
  | s, e :: es => (fires s e).toList ++ match step s e with
    | some s' => firings step fires s' es
    | none => []

theorem firings_forall {P : ℕ × ℕ → Prop} (h : ∀ s e f, fires s e = some f → P f) :
    ∀ (es : List E) (s : S), ∀ f ∈ firings step fires s es, P f
  | [], _, _, hf => nomatch hf
  | e :: es, s, f, hf => by
      rw [firings] at hf
      rcases List.mem_append.mp hf with hf | hf
      · exact h s e f (Option.mem_toList.mp hf)
      · cases hs : step s e with
        | none =>
          rw [hs] at hf
          cases hf
        | some t =>
          rw [hs] at hf
          exact firings_forall h es t f hf

/-- PACING RULE: if the state knows when the system fired last, and every firing keeps its pause after
    that, the firings of every run are spaced. -/
theorem firings_spaced (Inv : S → Option ℕ → Prop)
    (hfire : ∀ s e last f, Inv s last → fires s e = some f → ∀ m ∈ last, m + f.2 ≤ f.1)
    (hstep : ∀ s e s' last, Inv s last → step s e = some s' →
      Inv s' (((fires s e).map Prod.fst).or last)) :
    ∀ (es : List E) {s : S} {last : Option ℕ}, Inv s last → Spaced (firings step fires s es) ∧
      ∀ m ∈ last, ∀ f ∈ firings step fires s es, m + f.2 ≤ f.1
  | [], _, _, _ => ⟨.nil, by simp [firings]⟩
  | e :: es, s, last, h => by
      cases hs : step s e with
      | none =>
        refine ⟨?_, fun m hm f hf => ?_⟩
        · cases hf : fires s e <;> simp [firings, hs, hf, Spaced]
        · exact hfire s e last f h (by simpa [firings, hs] using hf) m hm
      | some t =>
        obtain ⟨hrest, hafter⟩ := firings_spaced Inv hfire hstep es (hstep s e t last h hs)
        cases hf : fires s e with
        | none =>
          rw [hf] at hafter
          simp only [firings, hs, hf, Option.toList_none, List.nil_append]
          exact ⟨hrest, hafter⟩
        | some f =>
          rw [hf] at hafter
          have hlater : ∀ f' ∈ firings step fires t es, f.1 + f'.2 ≤ f'.1 := hafter f.1 rfl
          simp only [firings, hs, hf, Option.toList_some, List.singleton_append]
          refine ⟨List.pairwise_cons.mpr ⟨hlater, hrest⟩, fun m hm f' hf' => ?_⟩
          have hfirst := hfire s e last f h hf m hm
          rcases List.mem_cons.mp hf' with rfl | hf'
          · exact hfirst
          · have := hlater f' hf'
            omega

end Rumsh.Schemes
