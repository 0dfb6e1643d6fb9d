import Mathlib.Data.List.Basic

/-! Two runs of one machine, the second over the inputs the first keeps.

    A machine reads inputs and answers each with a list of outputs. An input does not interfere when
    deleting it changes no output. `purge_run` is the unwinding rule: a relation between the states of
    the two runs that a kept input preserves on both sides, with the same outputs, and a deleted one on
    the first side alone, with none. -/

namespace Rumsh.Schemes

variable {S I O : Type} (step : S → I → S × List O)

/-- All outputs along the inputs. -/
def outputs : S → List I → List O
  | _, [] => []
  | s, i :: is => (step s i).2 ++ outputs (step s i).1 is

/-- The state after the inputs. -/
def final (s : S) (is : List I) : S := is.foldl (fun s i => (step s i).1) s

/-- The condition holds before each input. -/
def AllAlong (P : S → I → Prop) : S → List I → Prop
  | _, [] => True
  | s, i :: is => P s i ∧ AllAlong P (step s i).1 is

variable {step}

instance instDecidableAllAlong {P : S → I → Prop} [∀ s i, Decidable (P s i)] :
    ∀ (s : S) (is : List I), Decidable (AllAlong step P s is)
  | _, [] => .isTrue trivial
  | s, i :: is =>
    have : Decidable (AllAlong step P (step s i).1 is) := instDecidableAllAlong _ is
    inferInstanceAs (Decidable (P s i ∧ AllAlong step P (step s i).1 is))

theorem AllAlong.imp {P Q : S → I → Prop} : ∀ {is : List I} {s : S},
    (∀ t, ∀ i ∈ is, P t i → Q t i) → AllAlong step P s is → AllAlong step Q s is
  | [], _, _, _ => trivial
  | i :: _, s, h, hP => ⟨h s i (List.mem_cons_self ..) hP.1,
      AllAlong.imp (fun t j hj => h t j (List.mem_cons_of_mem _ hj)) hP.2⟩

/-- UNWINDING: along inputs that meet the condition, the outputs are those of the kept inputs, and the
    final states are still related. -/
theorem purge_run (R : S → S → Prop) (P : S → I → Prop) (keep : I → Bool)
    (hkeep : ∀ s t i, R s t → P s i → keep i = true →
      R (step s i).1 (step t i).1 ∧ (step s i).2 = (step t i).2)
    (hdrop : ∀ s t i, R s t → P s i → keep i = false → R (step s i).1 t ∧ (step s i).2 = []) :
    ∀ (is : List I) {s t : S}, R s t → AllAlong step P s is →
      outputs step s is = outputs step t (is.filter keep) ∧
        R (final step s is) (final step t (is.filter keep))
  | [], _, _, hR, _ => ⟨rfl, hR⟩
  | i :: is, s, t, hR, hP => by
      cases hk : keep i with
      | true =>
        obtain ⟨hR', hout⟩ := hkeep s t i hR hP.1 hk
        obtain ⟨houts, hfinal⟩ := purge_run R P keep hkeep hdrop is hR' hP.2
        rw [List.filter_cons, if_pos hk]
        exact ⟨by simp only [outputs, hout, houts], hfinal⟩
      | false =>
        obtain ⟨hR', hout⟩ := hdrop s t i hR hP.1 hk
        obtain ⟨houts, hfinal⟩ := purge_run R P keep hkeep hdrop is hR' hP.2
        rw [List.filter_cons, if_neg (by simp [hk])]
        exact ⟨by simp only [outputs, hout, houts, List.nil_append], hfinal⟩

end Rumsh.Schemes
