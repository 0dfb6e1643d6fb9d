import Mathlib.Data.List.Basic
import Mathlib.Data.Finset.Card
import Std.Data.TreeMap

/-! Cutting a list into fixed-size chunks and putting it back together from a table of chunks.

    `chunks n l` is the list of consecutive pieces of length `n` (the last may be shorter). A receiver
    that fills a table `index ↦ piece` knows it is done by counting: a table with as many entries as
    there are chunks, none of them out of range, holds every chunk, and reading it in index order gives
    back the list (`assemble_eq`). -/

namespace Rumsh.Schemes
open Std

variable {α : Type}

/-- The number of pieces of length `n` that cover `l`. -/
def chunkCount (n : ℕ) (l : List α) : ℕ := (l.length + n - 1) / n

/-- The `i`-th piece. -/
def chunk (n : ℕ) (l : List α) (i : ℕ) : List α := (l.drop (i * n)).take n

def chunks (n : ℕ) (l : List α) : List (List α) := (List.range (chunkCount n l)).map (chunk n l)

@[simp] theorem length_chunks (n : ℕ) (l : List α) : (chunks n l).length = chunkCount n l := by
  simp [chunks]

theorem getElem?_chunks {n : ℕ} {l : List α} {i : ℕ} (h : i < chunkCount n l) :
    (chunks n l)[i]? = some (chunk n l i) := by
  simp [chunks, h]

/-- Reading the first `m` pieces in order gives the first `m * n` elements. -/
theorem flatMap_chunk (n : ℕ) (l : List α) : ∀ m : ℕ,
    (List.range m).flatMap (chunk n l) = l.take (m * n) := by
  intro m
  induction m with
  | zero => simp
  | succ m ih => simp [List.range_succ, ih, chunk, List.take_add, Nat.succ_mul]

theorem length_le_chunkCount_mul {n : ℕ} (hn : 0 < n) (l : List α) :
    l.length ≤ chunkCount n l * n := by
  have h := Nat.div_add_mod (l.length + n - 1) n
  have hm := Nat.mod_lt (l.length + n - 1) hn
  rw [Nat.mul_comm] at h
  unfold chunkCount
  omega

theorem two_le_chunkCount {n : ℕ} {l : List α} (hn : 0 < n) (h : n < l.length) :
    2 ≤ chunkCount n l := by
  have := length_le_chunkCount_mul hn l
  by_contra hc
  have : chunkCount n l * n ≤ 1 * n := Nat.mul_le_mul_right _ (by omega)
  omega

/-- Read the table in index order. -/
def assemble (m : ℕ) (t : TreeMap ℕ (List α)) : List α :=
  (List.range m).flatMap fun i => (t[i]?).getD []

theorem card_keys {β : Type} (t : TreeMap ℕ β) : t.keys.toFinset.card = t.size := by
  have hnodup : t.keys.Nodup := by
    refine List.Pairwise.imp ?_ (TreeMap.distinct_keys (t := t))
    intro a b h heq
    exact h (by simp [heq])
  rw [List.toFinset_card_of_nodup hnodup, TreeMap.length_keys]

theorem keys_subset_range {β : Type} {m : ℕ} {t : TreeMap ℕ β} (hlt : ∀ i ∈ t, i < m) :
    t.keys.toFinset ⊆ Finset.range m := by
  intro i hi
  rw [List.mem_toFinset, TreeMap.mem_keys] at hi
  exact Finset.mem_range.mpr (hlt i hi)

/-- COUNTING: a table whose keys all lie below `m` has an entry for each number below `m` exactly
    when it has `m` entries. -/
theorem size_eq_iff {β : Type} {m : ℕ} {t : TreeMap ℕ β} (hlt : ∀ i ∈ t, i < m) :
    t.size = m ↔ ∀ i < m, i ∈ t := by
  have hsub := keys_subset_range hlt
  constructor
  · intro hsize i hi
    have hkeys : t.keys.toFinset = Finset.range m :=
      Finset.eq_of_subset_of_card_le hsub (by rw [Finset.card_range, card_keys, hsize])
    have : i ∈ t.keys.toFinset := by rw [hkeys]; exact Finset.mem_range.mpr hi
    rwa [List.mem_toFinset, TreeMap.mem_keys] at this
  · intro hall
    have hkeys : t.keys.toFinset = Finset.range m := by
      refine Finset.Subset.antisymm hsub fun i hi => ?_
      rw [List.mem_toFinset, TreeMap.mem_keys]
      exact hall i (Finset.mem_range.mp hi)
    rw [← card_keys, hkeys, Finset.card_range]

/-- A table with indices below `m` has at most `m` entries. -/
theorem size_le {β : Type} {m : ℕ} {t : TreeMap ℕ β} (hlt : ∀ i ∈ t, i < m) : t.size ≤ m := by
  rw [← card_keys, ← Finset.card_range m]
  exact Finset.card_le_card (keys_subset_range hlt)

/-- REASSEMBLY: a table of true chunks that has as many entries as there are chunks reads back as
    the list that was cut. -/
theorem assemble_eq {n : ℕ} (hn : 0 < n) {l : List α} {t : TreeMap ℕ (List α)}
    (hsize : t.size = chunkCount n l)
    (hpiece : ∀ i piece, t[i]? = some piece → i < chunkCount n l ∧ piece = chunk n l i) :
    assemble (chunkCount n l) t = l := by
  have hmem : ∀ i < chunkCount n l, i ∈ t := by
    refine (size_eq_iff fun i hi => ?_).mp hsize
    obtain ⟨piece, hp⟩ := TreeMap.mem_iff_isSome_getElem?.mp hi |> Option.isSome_iff_exists.mp
    exact (hpiece i piece hp).1
  have hread : ∀ i ∈ List.range (chunkCount n l), (t[i]?).getD [] = chunk n l i := by
    intro i hi
    obtain ⟨piece, hp⟩ := Option.isSome_iff_exists.mp
      (TreeMap.mem_iff_isSome_getElem?.mp (hmem i (List.mem_range.mp hi)))
    rw [hp, Option.getD_some]
    exact (hpiece i piece hp).2
  calc assemble (chunkCount n l) t = (List.range (chunkCount n l)).flatMap (chunk n l) :=
        List.flatMap_congr hread
    _ = l := by
        rw [flatMap_chunk, List.take_of_length_le (length_le_chunkCount_mul hn l)]

end Rumsh.Schemes
