import Mathlib.Data.List.Basic

/-! The host terminal's mode: `src/client/lifecycle.rs`.

    `TerminalLifecycle` is a guard: once it is built, dropping it leaves the alternate screen and turns
    raw mode off, whatever failed in between. It is built only after the last step of the constructor,
    so a constructor that fails half way leaves behind what it has done. -/

namespace Rumsh.Client

/-- `LifecycleBackend`. A failed call is `none`; the program never looks at the error. -/
class LifecycleBackend (B : Type) where
  enableRawMode : B → B × Option Unit
  disableRawMode : B → B × Option Unit
  enterAlternateScreen : B → B × Option Unit
  leaveAlternateScreen : B → B × Option Unit
  terminalSize : B → B × Option (ℕ × ℕ)
  sendSigtstp : B → B × Option Unit

/-- What the user is left with when the program ends. -/
structure HostTerminal where
  rawMode : Bool
  altScreen : Bool
  deriving DecidableEq, Repr

/-- As the shell left it: raw mode off, on the main screen. -/
def HostTerminal.restored : HostTerminal := { rawMode := false, altScreen := false }

open LifecycleBackend

/-- What a backend does to the host terminal. The restoring calls succeed; the others may fail at any
    time. Raw mode that could not be enabled stays as it was; a screen that could not be entered may have
    been entered in part. -/
structure LifecycleBackend.Lawful {B : Type} [LifecycleBackend B] (host : B → HostTerminal) : Prop where
  enabled : ∀ b, (enableRawMode b).2 = some () →
    host (enableRawMode b).1 = { host b with rawMode := true }
  notEnabled : ∀ b, (enableRawMode b).2 = none → host (enableRawMode b).1 = host b
  disabled : ∀ b, host (disableRawMode b).1 = { host b with rawMode := false }
  entered : ∀ b, (enterAlternateScreen b).2 = some () →
    host (enterAlternateScreen b).1 = { host b with altScreen := true }
  notEntered : ∀ b, (host (enterAlternateScreen b).1).rawMode = (host b).rawMode
  left : ∀ b, host (leaveAlternateScreen b).1 = { host b with altScreen := false }
  terminalSize : ∀ b, host (terminalSize b).1 = host b
  sendSigtstp : ∀ b, host (sendSigtstp b).1 = host b

structure TerminalLifecycle (B : Type) where
  backend : B

namespace TerminalLifecycle
variable {B : Type} [LifecycleBackend B]

/-- `with_backend`. The error is the backend as it is when `?` drops it: it has no destructor. -/
def withBackend (backend : B) : Except B (TerminalLifecycle B × ℕ × ℕ) :=
  match enableRawMode backend with
  | (backend, none) => .error backend
  | (backend, some ()) =>
    match enterAlternateScreen backend with
    | (backend, none) => .error backend
    | (backend, some ()) =>
      match LifecycleBackend.terminalSize backend with
      | (backend, none) => .error backend
      | (backend, some (cols, rows)) => .ok ({ backend }, cols, rows)

/-- `suspend`, and the size `on_resume` is called with. Every error is thrown away. -/
def suspend (l : TerminalLifecycle B) : TerminalLifecycle B × Option (ℕ × ℕ) :=
  let backend := (disableRawMode l.backend).1
  let backend := (leaveAlternateScreen backend).1
  let backend := (LifecycleBackend.sendSigtstp backend).1
  let backend := (enableRawMode backend).1
  let backend := (enterAlternateScreen backend).1
  let (backend, size) := LifecycleBackend.terminalSize backend
  ({ backend }, size)

/-- `clear_and_resize`, and the size `on_resize` is called with. -/
def clearAndResize (l : TerminalLifecycle B) : TerminalLifecycle B × Option (ℕ × ℕ) :=
  let backend := (enterAlternateScreen l.backend).1
  let (backend, size) := LifecycleBackend.terminalSize backend
  ({ backend }, size)

/-- `Drop`. -/
def drop (l : TerminalLifecycle B) : B :=
  (disableRawMode (leaveAlternateScreen l.backend).1).1

inductive LifecycleOp where
  | suspend
  | clearAndResize
  deriving DecidableEq, Repr

def perform (l : TerminalLifecycle B) : LifecycleOp → TerminalLifecycle B
  | .suspend => l.suspend.1
  | .clearAndResize => l.clearAndResize.1

/-- The backend once the object is gone: after the constructor failed, or after the object was built,
    used and dropped. -/
def afterwards (backend : B) (ops : List LifecycleOp) : B :=
  match withBackend backend with
  | .error backend => backend
  | .ok (l, _, _) => (ops.foldl perform l).drop

/-- Once raw mode is on, nothing else fails in the constructor. -/
def SetsUp (backend : B) : Prop :=
  (enableRawMode backend).2 = some () →
    (enterAlternateScreen (enableRawMode backend).1).2 = some () ∧
    (LifecycleBackend.terminalSize (enterAlternateScreen (enableRawMode backend).1).1).2.isSome

variable {host : B → HostTerminal}

/-- The destructor restores the host terminal from any state. -/
theorem restored_drop (law : Lawful host) (l : TerminalLifecycle B) : host l.drop = .restored := by
  rw [drop, law.disabled, law.left, HostTerminal.restored]

/-- A constructor that fails leaves raw mode on, unless enabling it is what failed. -/
theorem withBackend_error (law : Lawful host) {backend backend' : B}
    (h : withBackend backend = .error backend') :
    (enableRawMode backend).2 = none ∧ host backend' = host backend ∨
      ¬ SetsUp backend ∧ (host backend').rawMode = true := by
  unfold withBackend at h
  split at h
  · rename_i b₁ heq
    cases h
    refine .inl ⟨by rw [heq], ?_⟩
    have := law.notEnabled backend (by rw [heq])
    rwa [heq] at this
  · rename_i b₁ heq
    have hraw : (host b₁).rawMode = true := by
      have := law.enabled backend (by rw [heq])
      rw [heq] at this
      rw [this]
    refine .inr ?_
    have hentered := law.notEntered b₁
    split at h
    · rename_i b₂ heq₂
      cases h
      rw [heq₂] at hentered
      refine ⟨fun hs => ?_, hentered.trans hraw⟩
      have := (hs (by rw [heq])).1
      rw [heq, heq₂] at this
      cases this
    · rename_i b₂ heq₂
      rw [heq₂] at hentered
      have hsize := law.terminalSize b₂
      split at h
      · rename_i b₃ heq₃
        cases h
        rw [heq₃] at hsize
        refine ⟨fun hs => ?_, by rw [hsize, hentered, hraw]⟩
        have := (hs (by rw [heq])).2
        rw [heq, heq₂, heq₃] at this
        cases this
      · cases h

/-- A constructor that succeeds had every call succeed. -/
theorem withBackend_ok {backend : B} {r : TerminalLifecycle B × ℕ × ℕ}
    (h : withBackend backend = .ok r) : SetsUp backend := by
  unfold withBackend at h
  split at h
  · cases h
  · rename_i b₁ heq
    split at h
    · cases h
    · rename_i b₂ heq₂
      split at h
      · cases h
      · rename_i b₃ cols rows heq₃
        intro _
        rw [heq, heq₂, heq₃]
        exact ⟨rfl, rfl⟩

/-- RESTORED: the host terminal is left as it was found exactly if the constructor sets up, whatever is
    done with the object and whatever fails meanwhile. -/
theorem host_restored_iff (law : Lawful host) {backend : B} (hstart : host backend = .restored)
    (ops : List LifecycleOp) : host (afterwards backend ops) = .restored ↔ SetsUp backend := by
  unfold afterwards
  split
  · rename_i backend' heq
    rcases withBackend_error law heq with ⟨hnone, hhost⟩ | ⟨hfail, hraw⟩
    · refine iff_of_true (hhost.trans hstart) fun hsome => ?_
      rw [hnone] at hsome
      cases hsome
    · refine iff_of_false (fun h => ?_) hfail
      rw [h] at hraw
      cases hraw
  · rename_i l cols rows heq
    exact iff_of_true (restored_drop law _) (withBackend_ok heq)

/-! ### A backend that fails on order -/

/-- The tests' fake, with the outcome of each call that may fail. -/
structure FakeLifecycleBackend where
  host : HostTerminal := .restored
  size : ℕ × ℕ := (80, 24)
  outcomes : List Bool := []
  deriving DecidableEq, Repr

namespace FakeLifecycleBackend

/-- The next outcome; calls succeed when none is left. -/
def next (b : FakeLifecycleBackend) : FakeLifecycleBackend × Bool :=
  ({ b with outcomes := b.outcomes.tail }, b.outcomes.headD true)

/-- A call that may fail, and what it does to the host terminal when it does not. -/
def call {α : Type} (b : FakeLifecycleBackend) (effect : HostTerminal → HostTerminal) (result : α) :
    FakeLifecycleBackend × Option α :=
  if b.next.2 then ({ b.next.1 with host := effect b.host }, some result) else (b.next.1, none)

instance : LifecycleBackend FakeLifecycleBackend where
  enableRawMode b := b.call (fun h => { h with rawMode := true }) ()
  disableRawMode b := ({ b with host := { b.host with rawMode := false } }, some ())
  enterAlternateScreen b := b.call (fun h => { h with altScreen := true }) ()
  leaveAlternateScreen b := ({ b with host := { b.host with altScreen := false } }, some ())
  terminalSize b := b.call id b.size
  sendSigtstp b := b.call id ()

theorem lawful : Lawful FakeLifecycleBackend.host where
  enabled b h := by
    simp only [enableRawMode, call] at h ⊢
    split at h
    · rw [if_pos (by assumption)]
    · cases h
  notEnabled b h := by
    simp only [enableRawMode, call] at h ⊢
    split at h
    · cases h
    · rw [if_neg (by assumption)]
      rfl
  disabled _ := rfl
  entered b h := by
    simp only [enterAlternateScreen, call] at h ⊢
    split at h
    · rw [if_pos (by assumption)]
    · cases h
  notEntered b := by
    simp only [enterAlternateScreen, call]
    split <;> rfl
  left _ := rfl
  terminalSize b := by
    simp only [LifecycleBackend.terminalSize, call]
    split <;> rfl
  sendSigtstp b := by
    simp only [LifecycleBackend.sendSigtstp, call]
    split <;> rfl

end FakeLifecycleBackend

/-- A session that is suspended once, where raw mode cannot be enabled again on return. -/
theorem host_restored_after_suspend :
    ((afterwards ({ outcomes := [true, true, true, true, false] } : FakeLifecycleBackend)
      [.suspend, .clearAndResize]).host = .restored ↔
      SetsUp ({ outcomes := [true, true, true, true, false] } : FakeLifecycleBackend)) ∧
    SetsUp ({ outcomes := [true, true, true, true, false] } : FakeLifecycleBackend) :=
  ⟨host_restored_iff FakeLifecycleBackend.lawful rfl _, fun _ => ⟨rfl, rfl⟩⟩

/-- The alternate screen cannot be entered, or the size cannot be read: the user's terminal is left in raw
    mode. -/
theorem constructor_leaves_raw_mode :
    (afterwards ({ outcomes := [true, false] } : FakeLifecycleBackend) []).host =
      { rawMode := true, altScreen := false } ∧
    (afterwards ({ outcomes := [true, true, false] } : FakeLifecycleBackend) []).host =
      { rawMode := true, altScreen := true } ∧
    ¬ ∀ outcomes ops, (afterwards ({ outcomes } : FakeLifecycleBackend) ops).host = .restored := by
  refine ⟨rfl, rfl, fun h => ?_⟩
  exact absurd (h [true, false] []) (by decide)

end TerminalLifecycle

end Rumsh.Client
