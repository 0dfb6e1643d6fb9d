import Mathlib.Data.List.Basic
import Mathlib.Data.List.Induction

/-! Sparse updates of a list: a sequence of `(index, value)` writes, applied left to right.

    A delta encoder sends only the positions where the target differs from a base both sides hold.
    `overwrite` is what the receiver does with them; `overwrite_eq_target` is the round trip: if every
    write carries the target's value and every position not written already agrees, the result is the
    target, whatever the order of the writes and however often a position is repeated. -/

namespace Rumsh.Schemes

variable {α β : Type}

/-- Apply the writes in order; a write past the end changes nothing. -/
def overwrite (base : List α) (us : List (ℕ × α)) : List α :=
  us.foldl (fun l u => l.set u.1 u.2) base

@[simp] theorem overwrite_nil (base : List α) : overwrite base [] = base := rfl

@[simp] theorem overwrite_cons (base : List α) (u : ℕ × α) (us : List (ℕ × α)) :
    overwrite base (u :: us) = overwrite (base.set u.1 u.2) us := rfl

theorem overwrite_append (base : List α) (us vs : List (ℕ × α)) :
    overwrite base (us ++ vs) = overwrite (overwrite base us) vs := by
  simp [overwrite, List.foldl_append]

@[simp] theorem length_overwrite (us : List (ℕ × α)) : ∀ base : List α,
    (overwrite base us).length = base.length := by
  induction us with
  | nil => intro base; rfl
  | cons u us ih => intro base; simp [ih]

/-- Every element was in the base or comes from a write. -/
theorem mem_overwrite {a : α} {us : List (ℕ × α)} : ∀ {base : List α}, a ∈ overwrite base us →
    a ∈ base ∨ ∃ u ∈ us, u.2 = a := by
  induction us with
  | nil => exact fun h => .inl h
  | cons u us ih =>
    intro base h
    rcases ih h with h | ⟨v, hv, hva⟩
    · rcases List.mem_or_eq_of_mem_set h with h | rfl
      · exact .inl h
      · exact .inr ⟨u, List.mem_cons_self .., rfl⟩
    · exact .inr ⟨v, List.mem_cons_of_mem _ hv, hva⟩

/-- A position no write touches keeps its value. -/
theorem getElem?_overwrite_of_notMem {i : ℕ} (us : List (ℕ × α)) : ∀ base : List α,
    (∀ u ∈ us, u.1 ≠ i) → (overwrite base us)[i]? = base[i]? := by
  induction us with
  | nil => intro base _; rfl
  | cons u us ih =>
    intro base h
    rw [overwrite_cons, ih _ fun v hv => h v (List.mem_cons_of_mem _ hv)]
    exact List.getElem?_set_ne (h u (List.mem_cons_self ..))

/-- A written position holds the target's value when every write carries it. -/
theorem getElem?_overwrite_of_mem {i : ℕ} {target : List α} (us : List (ℕ × α)) :
    ∀ base : List α, base.length = target.length → (∀ u ∈ us, target[u.1]? = some u.2) →
      (∃ u ∈ us, u.1 = i) → (overwrite base us)[i]? = target[i]? := by
  induction us with
  | nil => rintro base - - ⟨u, hu, -⟩; simp at hu
  | cons u us ih =>
    rintro base hlen hval ⟨v, hv, rfl⟩
    have hval' : ∀ w ∈ us, target[w.1]? = some w.2 := fun w hw => hval w (List.mem_cons_of_mem _ hw)
    rw [overwrite_cons]
    by_cases hlater : ∃ w ∈ us, w.1 = v.1
    · exact ih _ (by simpa using hlen) hval' hlater
    · -- the last write to this position is the head
      rcases List.mem_cons.mp hv with rfl | hv'
      · rw [getElem?_overwrite_of_notMem us _ fun w hw heq => hlater ⟨w, hw, heq⟩]
        have hu := hval v (List.mem_cons_self ..)
        have hlt : v.1 < target.length := (List.getElem?_eq_some_iff.mp hu).1
        rw [List.getElem?_set_self (by omega), hu]
      · exact absurd ⟨v, hv', rfl⟩ hlater

/-- ROUND TRIP: writes that carry the target's values, and cover every position where the base
    differs from it, turn the base into the target. -/
theorem overwrite_eq_target {base target : List α} {us : List (ℕ × α)}
    (hlen : base.length = target.length) (hval : ∀ u ∈ us, target[u.1]? = some u.2)
    (hcover : ∀ i, (∀ u ∈ us, u.1 ≠ i) → base[i]? = target[i]?) : overwrite base us = target := by
  refine List.ext_getElem? fun i => ?_
  by_cases h : ∃ u ∈ us, u.1 = i
  · exact getElem?_overwrite_of_mem us base hlen hval h
  · have hno : ∀ u ∈ us, u.1 ≠ i := fun u hu heq => h ⟨u, hu, heq⟩
    rw [getElem?_overwrite_of_notMem us base hno]
    exact hcover i hno

/-- What the last write to a position carries. -/
def lastWrite (us : List (ℕ × α)) (i : ℕ) : Option α :=
  us.foldl (fun last u => if u.1 = i then some u.2 else last) none

@[simp] theorem lastWrite_nil (i : ℕ) : lastWrite ([] : List (ℕ × α)) i = none := rfl

theorem lastWrite_concat (us : List (ℕ × α)) (u : ℕ × α) (i : ℕ) :
    lastWrite (us ++ [u]) i = if u.1 = i then some u.2 else lastWrite us i := by
  simp [lastWrite, List.foldl_append]

/-- The last write to a position: no later write goes there. -/
theorem lastWrite_eq_some_iff {us : List (ℕ × α)} {i : ℕ} {a : α} :
    lastWrite us i = some a ↔
      ∃ k : ℕ, us[k]? = some (i, a) ∧ ∀ (j : ℕ) (u : ℕ × α), k < j → us[j]? = some u → u.1 ≠ i := by
  induction us using List.reverseRecOn with
  | nil => simp
  | append_singleton us u ih =>
    have hend : (us ++ [u])[us.length]? = some u := by simp
    have hpast : ∀ j v, us.length < j → (us ++ [u])[j]? = some v → False := by
      intro j v hj hv
      have hlen : (us ++ [u]).length ≤ j := by simpa using Nat.succ_le_of_lt hj
      rw [List.getElem?_eq_none hlen] at hv
      cases hv
    rw [lastWrite_concat]
    split
    · rename_i hu
      constructor
      · intro h
        obtain rfl := Option.some.inj h
        exact ⟨us.length, by rw [hend, ← hu], fun j v hj hv => (hpast j v hj hv).elim⟩
      · rintro ⟨k, hk, hlater⟩
        rcases Nat.lt_trichotomy k us.length with hlt | rfl | hgt
        · exact absurd hu (hlater us.length u hlt hend)
        · rw [hend] at hk
          rw [Option.some.inj hk]
        · exact (hpast k _ hgt hk).elim
    · rename_i hu
      rw [ih]
      constructor
      · rintro ⟨k, hk, hlater⟩
        have hlt : k < us.length := (List.getElem?_eq_some_iff.mp hk).1
        refine ⟨k, by rw [List.getElem?_append_left hlt, hk], fun j v hj hv => ?_⟩
        rcases Nat.lt_trichotomy j us.length with hjlt | rfl | hgt
        · rw [List.getElem?_append_left hjlt] at hv
          exact hlater j v hj hv
        · rw [hend] at hv
          exact Option.some.inj hv ▸ hu
        · exact (hpast j v hgt hv).elim
      · rintro ⟨k, hk, hlater⟩
        rcases Nat.lt_trichotomy k us.length with hlt | rfl | hgt
        · rw [List.getElem?_append_left hlt] at hk
          refine ⟨k, hk, fun j v hj hv => hlater j v hj ?_⟩
          rw [List.getElem?_append_left (List.getElem?_eq_some_iff.mp hv).1, hv]
        · rw [hend] at hk
          exact absurd (congrArg Prod.fst (Option.some.inj hk)) hu
        · exact (hpast k _ hgt hk).elim

/-- Writes to keys that a numbering tells apart: the last one is the first from the end. -/
theorem lastWrite_map_key {κ : Type} [BEq κ] [LawfulBEq κ] {f : κ → ℕ} {k : κ} (us : List (κ × α))
    (hinj : ∀ u ∈ us, f u.1 = f k → u.1 = k) :
    lastWrite (us.map fun u => (f u.1, u.2)) (f k) = us.reverse.lookup k := by
  induction us using List.reverseRecOn with
  | nil => rfl
  | append_singleton us u ih =>
    have hih := ih fun v hv => hinj v (List.mem_append_left _ hv)
    rw [List.map_append, List.map_singleton, lastWrite_concat, hih, List.reverse_concat, List.lookup_cons]
    by_cases hu : u.1 = k
    · rw [if_pos (congrArg f hu), beq_iff_eq.mpr hu.symm]
    · have hne : ¬ f u.1 = f k := mt (hinj u (List.mem_append_right _ (List.mem_singleton_self u))) hu
      rw [if_neg hne, beq_eq_false_iff_ne.mpr (Ne.symm hu)]

/-- Each position holds its last write, or what it held before. -/
theorem getElem?_overwrite {base : List α} {i : ℕ} (hi : i < base.length) (us : List (ℕ × α)) :
    (overwrite base us)[i]? = (lastWrite us i).or base[i]? := by
  induction us using List.reverseRecOn with
  | nil => rfl
  | append_singleton us u ih =>
    rw [overwrite_append, overwrite_cons, overwrite_nil, lastWrite_concat]
    split
    · rename_i hu
      rw [hu, List.getElem?_set_self (by simpa using hi), Option.some_or]
    · rename_i hu
      rw [List.getElem?_set_ne hu, ih]

theorem getElem?_overwrite_getD {base : List α} {us : List (ℕ × α)} {i : ℕ} {a : α}
    (h : base[i]? = some a) : (overwrite base us)[i]? = some ((lastWrite us i).getD a) := by
  have hi : i < base.length := (List.getElem?_eq_some_iff.mp h).1
  rw [getElem?_overwrite hi, h]
  cases lastWrite us i <;> rfl

/-- The writes change nothing exactly if each position's last write is what it holds. -/
theorem overwrite_eq_self_iff (base : List α) (us : List (ℕ × α)) :
    overwrite base us = base ↔ ∀ i a, i < base.length → lastWrite us i = some a → base[i]? = some a := by
  constructor
  · intro h i a hi ha
    have hget := getElem?_overwrite hi us
    rw [h, ha, Option.some_or] at hget
    exact hget
  · intro h
    refine List.ext_getElem? fun i => ?_
    by_cases hi : i < base.length
    · rw [getElem?_overwrite hi]
      cases ha : lastWrite us i with
      | none => rfl
      | some a => exact (h i a hi ha).symm
    · rw [List.getElem?_eq_none (by simpa using hi), List.getElem?_eq_none (by simpa using hi)]

/-- A partial map over a list succeeds when every element does. -/
theorem mapM_eq_some_map {f : α → Option β} {g : α → β} : ∀ l : List α,
    (∀ a ∈ l, f a = some (g a)) → l.mapM f = some (l.map g)
  | [], _ => rfl
  | a :: l, h => by
      rw [List.mapM_cons, h a (List.mem_cons_self ..),
        mapM_eq_some_map l fun b hb => h b (List.mem_cons_of_mem _ hb)]
      rfl

end Rumsh.Schemes
