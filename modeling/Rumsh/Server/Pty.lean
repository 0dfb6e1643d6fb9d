import Mathlib.Data.List.Chain
import Rumsh.Schemes.Utf8

/-! Whether local echo is recommended: the foreground-process half of `src/server/pty.rs`.

    Shells turn the terminal's ECHO flag off to edit the line themselves, so with ECHO off the name of
    the foreground process decides. The name is read from `/proc` only when the process group changes. A
    process can change its name within its group, by `exec`, and the cache does not notice. -/

namespace Rumsh.Server
open Rumsh.Schemes Utf8

/-- What one call can see of the kernel. -/
structure Observation where
  /-- The ECHO flag, if `tcgetattr` succeeds. -/
  echo : Option Bool
  /-- `tcgetpgrp`: no group if not positive. -/
  pgrp : ℤ
  /-- The text of `/proc/<pgrp>/comm`, if it can be read. -/
  comm : Option Text
  deriving DecidableEq, Repr

structure ProcessCache where
  lastPgrp : ℤ
  lastName : Option Text
  deriving DecidableEq, Repr

namespace ProcessCache

def new : ProcessCache := { lastPgrp := -1, lastName := none }

end ProcessCache

def isEchoEnabled (o : Observation) : Bool := o.echo.getD true

/-- `get_foreground_process_name`. -/
def getForegroundProcessName (cache : ProcessCache) (o : Observation) : ProcessCache × Option Text :=
  if o.pgrp > 0 then
    if cache.lastPgrp = o.pgrp then (cache, cache.lastName)
    else
      let name := o.comm.map trim
      ({ lastPgrp := o.pgrp, lastName := name }, name)
  else (cache, none)

/-- `["bash", "zsh", "sh", "fish", "rumsh"]`. -/
def shells : List Text :=
  [['b', 'a', 's', 'h'], ['z', 's', 'h'], ['s', 'h'], ['f', 'i', 's', 'h'], ['r', 'u', 'm', 's', 'h']]

/-- The answer for a process name; without one it is no. -/
def recommendedFor : Option Text → Bool
  | some procName => shells.contains procName
  | none => false

def isEchoRecommended (cache : ProcessCache) (o : Observation) : ProcessCache × Bool :=
  if isEchoEnabled o then (cache, true)
  else
    let (cache, name) := getForegroundProcessName cache o
    (cache, recommendedFor name)

/-- The answers of successive calls. -/
def answers : ProcessCache → List Observation → List Bool
  | _, [] => []
  | cache, o :: trace => (isEchoRecommended cache o).2 :: answers (isEchoRecommended cache o).1 trace

/-! ### Without the cache -/

/-- The name read from `/proc` on every call. -/
def freshName (o : Observation) : Option Text := if o.pgrp > 0 then o.comm.map trim else none

def freshAnswer (o : Observation) : Bool := isEchoEnabled o || recommendedFor (freshName o)

/-- A call that looks at the foreground group. -/
def Asks (o : Observation) : Bool := !isEchoEnabled o && decide (o.pgrp > 0)

/-- Two such calls that see one group see a shell both times or neither time. -/
def Agree (o o' : Observation) : Prop :=
  o.pgrp = o'.pgrp → recommendedFor (freshName o) = recommendedFor (freshName o')

/-- Successive calls that look at the foreground group agree, when they see the same one. -/
def NameKept (trace : List Observation) : Prop := (trace.filter Asks).IsChain Agree

/-- A call that does not look at the group answers as if there were no cache, and leaves it alone. -/
theorem isEchoRecommended_of_not_asks {cache : ProcessCache} {o : Observation} (h : ¬ Asks o = true) :
    isEchoRecommended cache o = (cache, freshAnswer o) := by
  unfold isEchoRecommended freshAnswer
  by_cases he : isEchoEnabled o = true
  · simp [he]
  · have hp : ¬ o.pgrp > 0 := fun hp => h (by simp [Asks, he, hp])
    simp [he, getForegroundProcessName, freshName, hp, recommendedFor]

theorem isEchoRecommended_of_asks (cache : ProcessCache) {o : Observation} (h : Asks o = true) :
    freshAnswer o = recommendedFor (freshName o) ∧
    isEchoRecommended cache o =
      if cache.lastPgrp = o.pgrp then (cache, recommendedFor cache.lastName)
      else ({ lastPgrp := o.pgrp, lastName := freshName o }, recommendedFor (freshName o)) := by
  obtain ⟨he, hp⟩ : isEchoEnabled o = false ∧ o.pgrp > 0 := by simpa [Asks] using h
  refine ⟨by simp [freshAnswer, he], ?_⟩
  simp only [isEchoRecommended, he, Bool.false_eq_true, if_false, getForegroundProcessName, freshName,
    if_pos hp]
  split <;> rfl

/-- The cache stands for the call `o`: the same group, and the same answer. -/
def StandsFor (cache : ProcessCache) (o : Observation) : Prop :=
  cache.lastPgrp = o.pgrp ∧ recommendedFor cache.lastName = recommendedFor (freshName o)

/-- RUN: from a cache that stands for the last call that asked. -/
theorem answers_eq_iff_of_standsFor {cache : ProcessCache} {o : Observation} (trace : List Observation)
    (h : StandsFor cache o) :
    answers cache trace = trace.map freshAnswer ↔ (o :: trace.filter Asks).IsChain Agree := by
  induction trace generalizing cache o with
  | nil => simp [answers]
  | cons o' trace ih =>
    rw [answers, List.map_cons, List.cons.injEq]
    by_cases ha : Asks o' = true
    · obtain ⟨hfresh, hstep⟩ := isEchoRecommended_of_asks cache ha
      rw [hfresh, hstep, List.filter_cons_of_pos ha, List.isChain_cons_cons]
      by_cases hgroup : cache.lastPgrp = o'.pgrp
      · -- a hit: the answer of `o` is given once more
        rw [if_pos hgroup]
        have hsame : o.pgrp = o'.pgrp := h.1.symm.trans hgroup
        constructor
        · rintro ⟨hanswer, hrest⟩
          refine ⟨fun _ => h.2.symm.trans hanswer, ?_⟩
          exact (ih ⟨hgroup, hanswer⟩).mp hrest
        · rintro ⟨hagree, hrest⟩
          have hanswer := h.2.trans (hagree hsame)
          exact ⟨hanswer, (ih ⟨hgroup, hanswer⟩).mpr hrest⟩
      · -- a miss: the cache stands for this call from now on
        rw [if_neg hgroup]
        have hother : ¬ o.pgrp = o'.pgrp := fun heq => hgroup (h.1.trans heq)
        rw [ih ⟨rfl, rfl⟩]
        exact ⟨fun hc => ⟨fun heq => absurd heq hother, hc.2⟩, fun hc => ⟨rfl, hc.2⟩⟩
    · rw [isEchoRecommended_of_not_asks ha, List.filter_cons_of_neg ha, ih h]
      exact and_iff_right rfl

/-- TRANSPARENT: every answer is the one `/proc` would give exactly if the foreground group, whenever it
    is looked at twice in a row, has a shell's name both times or neither time. -/
theorem answers_transparent_iff (trace : List Observation) :
    answers .new trace = trace.map freshAnswer ↔ NameKept trace := by
  unfold NameKept
  induction trace with
  | nil => simp [answers]
  | cons o trace ih =>
    rw [answers, List.map_cons, List.cons.injEq]
    by_cases ha : Asks o = true
    · -- the first call that looks at a group is a miss: no group has a negative number
      obtain ⟨hfresh, hstep⟩ := isEchoRecommended_of_asks .new ha
      have hpos : o.pgrp > 0 := (show _ ∧ o.pgrp > 0 by simpa [Asks] using ha).2
      have hgroup : ¬ ProcessCache.new.lastPgrp = o.pgrp := by
        show ¬ (-1 : ℤ) = o.pgrp
        omega
      rw [hfresh, hstep, if_neg hgroup, List.filter_cons_of_pos ha]
      rw [answers_eq_iff_of_standsFor trace ⟨rfl, rfl⟩]
      exact and_iff_right rfl
    · rw [isEchoRecommended_of_not_asks ha, List.filter_cons_of_neg ha, ih]
      exact and_iff_right rfl

/-- A child of the shell in a group of its own, before and after it becomes the program that asks for a
    password. -/
def execTrace : List Observation :=
  [{ echo := some false, pgrp := 4321, comm := some ['b', 'a', 's', 'h', '\n'] },
   { echo := some false, pgrp := 4321, comm := some ['s', 'u', 'd', 'o', '\n'] }]

/-- With ECHO off and `sudo` in the foreground the shell's stale name recommends local echo. -/
theorem stale_shell_name :
    answers .new execTrace = [true, true] ∧ execTrace.map freshAnswer = [true, false] ∧
      ¬ ∀ trace, answers .new trace = trace.map freshAnswer := by
  have hstale : answers .new execTrace = [true, true] := by decide
  have hfresh : execTrace.map freshAnswer = [true, false] := by decide
  refine ⟨hstale, hfresh, fun h => ?_⟩
  have heq := h execTrace
  rw [hstale, hfresh] at heq
  exact absurd heq (by decide)

end Rumsh.Server
