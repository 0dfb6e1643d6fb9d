import Mathlib.Data.List.Basic

/-! Runs of a partial step function, and the invariant rules for them.

    A step returns `none` when the program panics, so a run is a monadic fold. `StepsMeet` says that a
    condition on the state before a step and on the event holds at each step of a run: the rules below
    carry an invariant along all runs, or along those runs. -/

namespace Rumsh.Schemes

variable {S E : Type} {step : S → E → Option S}

/-- The state after the events, if no step fails. -/
def runFrom (step : S → E → Option S) (s : S) (es : List E) : Option S := es.foldlM step s

@[simp] theorem runFrom_nil (s : S) : runFrom step s [] = some s := rfl

@[simp] theorem runFrom_cons (s : S) (e : E) (es : List E) :
    runFrom step s (e :: es) = (step s e).bind fun s' => runFrom step s' es := rfl

theorem runFrom_append (s : S) (es fs : List E) :
    runFrom step s (es ++ fs) = (runFrom step s es).bind fun s' => runFrom step s' fs := by
  simp [runFrom, List.foldlM_append]

/-- The condition holds before each step of the run. -/
def StepsMeet (step : S → E → Option S) (P : S → E → Prop) : S → List E → Prop
  | _, [] => True
  | s, e :: es => P s e ∧ ∀ s', step s e = some s' → StepsMeet step P s' es

/-- Whether a given run meets a decidable condition can be evaluated. -/
instance instDecidableStepsMeet {P : S → E → Prop} [∀ s e, Decidable (P s e)] :
    ∀ (s : S) (es : List E), Decidable (StepsMeet step P s es)
  | _, [] => .isTrue trivial
  | s, e :: es =>
    match h : step s e with
    | none => decidable_of_iff (P s e)
        ⟨fun hP => ⟨hP, fun _ hs => nomatch h.symm.trans hs⟩, And.left⟩
    | some t =>
      have : Decidable (StepsMeet step P t es) := instDecidableStepsMeet t es
      decidable_of_iff (P s e ∧ StepsMeet step P t es)
        ⟨fun hP => ⟨hP.1, fun _ hs => Option.some.inj (h.symm.trans hs) ▸ hP.2⟩,
          fun hP => ⟨hP.1, hP.2 t h⟩⟩

theorem StepsMeet.left_of_append {P : S → E → Prop} : ∀ {es fs : List E} {s : S},
    StepsMeet step P s (es ++ fs) → StepsMeet step P s es
  | [], _, _, _ => trivial
  | _ :: _, _, _, hP => ⟨hP.1, fun s' hs => StepsMeet.left_of_append (hP.2 s' hs)⟩

/-- The rest of a run meets the condition from the state its start leads to. -/
theorem StepsMeet.right_of_append {P : S → E → Prop} : ∀ {es fs : List E} {s t : S},
    StepsMeet step P s (es ++ fs) → runFrom step s es = some t → StepsMeet step P t fs
  | [], _, _, _, hP, h => by
      cases h
      exact hP
  | e :: es, fs, s, t, hP, h => by
      obtain ⟨u, hu, h⟩ := Option.bind_eq_some_iff.mp h
      exact StepsMeet.right_of_append (hP.2 u hu) h

theorem StepsMeet.append {P : S → E → Prop} : ∀ {es fs : List E} {s t : S}, StepsMeet step P s es →
    runFrom step s es = some t → StepsMeet step P t fs → StepsMeet step P s (es ++ fs)
  | [], _, _, _, _, h, hfs => by
      cases h
      exact hfs
  | e :: es, fs, s, t, hP, h, hfs => by
      obtain ⟨u, hu, h⟩ := Option.bind_eq_some_iff.mp h
      refine ⟨hP.1, fun u' hu' => ?_⟩
      obtain rfl := Option.some.inj (hu.symm.trans hu')
      exact (hP.2 u hu).append h hfs

theorem StepsMeet.imp {P Q : S → E → Prop} (h : ∀ s e, P s e → Q s e) :
    ∀ {es : List E} {s : S}, StepsMeet step P s es → StepsMeet step Q s es
  | [], _, _ => trivial
  | e :: _, s, hP => ⟨h s e hP.1, fun s' hs => StepsMeet.imp h (hP.2 s' hs)⟩

theorem StepsMeet.and {P Q : S → E → Prop} :
    ∀ {es : List E} {s : S}, StepsMeet step P s es → StepsMeet step Q s es →
      StepsMeet step (fun s e => P s e ∧ Q s e) s es
  | [], _, _, _ => trivial
  | _ :: _, _, hP, hQ => ⟨⟨hP.1, hQ.1⟩, fun s' hs => (hP.2 s' hs).and (hQ.2 s' hs)⟩

/-- A condition on the events alone. -/
theorem stepsMeet_of_forall {Q : E → Prop} :
    ∀ {es : List E} {s : S}, (∀ e ∈ es, Q e) → StepsMeet step (fun _ e => Q e) s es
  | [], _, _ => trivial
  | _ :: _, _, h => ⟨h _ (List.mem_cons_self ..), fun _ _ =>
      stepsMeet_of_forall fun e he => h e (List.mem_cons_of_mem _ he)⟩

/-- A condition that follows from another under an invariant of the steps that meet it. -/
theorem StepsMeet.imp_of_invariant {P Q : S → E → Prop} {Inv : S → Prop}
    (hstep : ∀ s e s', Inv s → P s e → step s e = some s' → Inv s')
    (himp : ∀ s e, Inv s → P s e → Q s e) :
    ∀ {es : List E} {s : S}, Inv s → StepsMeet step P s es → StepsMeet step Q s es
  | [], _, _, _ => trivial
  | e :: _, s, hs, hP => ⟨himp s e hs hP.1, fun s' h =>
      StepsMeet.imp_of_invariant hstep himp (hstep s e s' hs hP.1 h) (hP.2 s' h)⟩

/-- The same along a completed run, where every step succeeds. -/
theorem StepsMeet.imp_of_run {P Q : S → E → Prop} {Inv : S → Prop}
    (hstep : ∀ s e s', Inv s → P s e → step s e = some s' → Inv s' ∧ Q s e) :
    ∀ {es : List E} {s s' : S}, Inv s → StepsMeet step P s es → runFrom step s es = some s' →
      StepsMeet step Q s es
  | [], _, _, _, _, _ => trivial
  | e :: _, s, _, hs, hP, h => by
      obtain ⟨t, ht, h⟩ := Option.bind_eq_some_iff.mp h
      obtain ⟨hInv, hQ⟩ := hstep s e t hs hP.1 ht
      refine ⟨hQ, fun u hu => ?_⟩
      obtain rfl := Option.some.inj (ht.symm.trans hu)
      exact StepsMeet.imp_of_run hstep hInv (hP.2 t ht) h

/-- Along a completed run, two conditions that agree at each step that meets a third hold together. -/
theorem stepsMeet_congr {P Q R : S → E → Prop}
    (hstep : ∀ s e s', R s e → step s e = some s' → (P s e ↔ Q s e)) :
    ∀ {es : List E} {s s' : S}, StepsMeet step R s es → runFrom step s es = some s' →
      (StepsMeet step P s es ↔ StepsMeet step Q s es)
  | [], _, _, _, _ => Iff.rfl
  | e :: es, s, s', hR, h => by
      obtain ⟨t, ht, h⟩ := Option.bind_eq_some_iff.mp h
      have hrest := stepsMeet_congr hstep (hR.2 t ht) h
      refine and_congr (hstep s e t hR.1 ht) ⟨fun hP u hu => ?_, fun hQ u hu => ?_⟩
      · obtain rfl := Option.some.inj (ht.symm.trans hu)
        exact hrest.mp (hP t ht)
      · obtain rfl := Option.some.inj (ht.symm.trans hu)
        exact hrest.mpr (hQ t ht)

/-- INVARIANT RULE: what every step that meets the condition preserves, every run of such steps
    preserves. -/
theorem run_invariant {P : S → E → Prop} {Inv : S → Prop}
    (hstep : ∀ s e s', Inv s → P s e → step s e = some s' → Inv s') :
    ∀ (es : List E) {s s' : S}, Inv s → StepsMeet step P s es → runFrom step s es = some s' → Inv s'
  | [], s, s', hs, _, h => by
      cases h
      exact hs
  | e :: es, s, s', hs, hP, h => by
      obtain ⟨t, ht, h⟩ := Option.bind_eq_some_iff.mp h
      exact run_invariant hstep es (hstep s e t hs hP.1 ht) (hP.2 t ht) h

/-- The rule for an invariant that every step preserves. -/
theorem run_invariant_all {Inv : S → Prop} (hstep : ∀ s e s', Inv s → step s e = some s' → Inv s')
    {es : List E} {s s' : S} (hs : Inv s) (h : runFrom step s es = some s') : Inv s' := by
  induction es generalizing s with
  | nil => cases h; exact hs
  | cons e es ih =>
    obtain ⟨t, ht, h⟩ := Option.bind_eq_some_iff.mp h
    exact ih (hstep s e t hs ht) h

/-- SIMULATION RULE: what is matched step by step by runs of another machine is matched by a run of it. -/
theorem run_simulation {S' E' : Type} {step' : S' → E' → Option S'} {P : S → E → Prop}
    {Q : S' → E' → Prop} {R : S → S' → Prop}
    (hstep : ∀ s e s' t, R s t → P s e → step s e = some s' →
      ∃ fs t', runFrom step' t fs = some t' ∧ StepsMeet step' Q t fs ∧ R s' t') :
    ∀ (es : List E) {s s' : S} {t : S'}, R s t → StepsMeet step P s es → runFrom step s es = some s' →
      ∃ fs t', runFrom step' t fs = some t' ∧ StepsMeet step' Q t fs ∧ R s' t'
  | [], s, s', t, hR, _, h => by
      cases h
      exact ⟨[], t, rfl, trivial, hR⟩
  | e :: es, s, s', t, hR, hP, h => by
      obtain ⟨u, hu, h⟩ := Option.bind_eq_some_iff.mp h
      obtain ⟨fs, t₁, hfs, hQ, hR₁⟩ := hstep s e u t hR hP.1 hu
      obtain ⟨gs, t₂, hgs, hQ', hR₂⟩ := run_simulation hstep es hR₁ (hP.2 u hu) h
      refine ⟨fs ++ gs, t₂, ?_, hQ.append hfs hQ', hR₂⟩
      rw [runFrom_append, hfs, Option.bind_some, hgs]

/-- PREFIX RULE: the run returns and is good up to each of its points exactly if every step meets the
    condition, when the condition is what a step needs to return and keep the invariant, and a good state
    is not reached without it. -/
theorem prefixes_good_iff {P : S → E → Prop} {Q : E → Prop} {Inv Good : S → Prop}
    (hgood : ∀ s, Inv s → Good s)
    (hstep : ∀ s e, Q e → Inv s → P s e → ∃ s', step s e = some s' ∧ Inv s')
    (hback : ∀ s e s', Q e → Inv s → step s e = some s' → Good s' → P s e) :
    ∀ {es : List E} {s : S}, (∀ e ∈ es, Q e) → Inv s →
      ((∀ before, before <+: es → ∃ s', runFrom step s before = some s' ∧ Good s') ↔
        StepsMeet step P s es) := by
  intro es
  induction es with
  | nil =>
    intro s _ hs
    refine iff_of_true (fun before hbefore => ?_) trivial
    rw [List.prefix_nil.mp hbefore]
    exact ⟨s, rfl, hgood s hs⟩
  | cons e es ih =>
    intro s hQ hs
    obtain ⟨he, hes⟩ := List.forall_mem_cons.mp hQ
    constructor
    · intro h
      have hP : P s e := by
        obtain ⟨s', hrun, hgood'⟩ := h [e] ⟨es, rfl⟩
        obtain ⟨t, ht, hnil⟩ := Option.bind_eq_some_iff.mp hrun
        obtain rfl := Option.some.inj hnil
        exact hback s e t he hs ht hgood'
      obtain ⟨t, ht, hInv⟩ := hstep s e he hs hP
      refine ⟨hP, fun t' ht' => ?_⟩
      obtain rfl := Option.some.inj (ht.symm.trans ht')
      refine (ih hes hInv).mp fun before hbefore => ?_
      obtain ⟨s', hrun, hgood'⟩ := h (e :: before) (List.cons_prefix_cons.mpr ⟨rfl, hbefore⟩)
      rw [runFrom_cons, ht] at hrun
      exact ⟨s', hrun, hgood'⟩
    · rintro ⟨hP, hrest⟩ before hbefore
      obtain ⟨t, ht, hInv⟩ := hstep s e he hs hP
      cases before with
      | nil => exact ⟨s, rfl, hgood s hs⟩
      | cons e' before =>
        obtain ⟨heq, hbefore⟩ := List.cons_prefix_cons.mp hbefore
        obtain ⟨s', hrun, hgood'⟩ := (ih hes hInv).mpr (hrest t ht) before hbefore
        exact ⟨s', by rw [heq, runFrom_cons, ht]; exact hrun, hgood'⟩

end Rumsh.Schemes
