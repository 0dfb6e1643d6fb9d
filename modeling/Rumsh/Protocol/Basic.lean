import Mathlib.Data.List.Basic

/-! Types every part of the program shares: byte strings, errors, addresses and time.

    Sequence numbers, session ids and sizes are `ℕ`. A `u64` counter of the program is only ever
    incremented by one, so it stays the natural number it counts; where a narrower type truncates
    (`u16` indices and fragment counts) the truncation is written out. -/

namespace Rumsh.Protocol

/-- A byte string: a `Vec<u8>`, a slice, or the UTF-8 text of a `&str`. -/
abbrev Bytes := List UInt8

/-- Every `anyhow` error the protocol, session and terminal code can return. -/
inductive Error where
  | encode
  | decode
  | encryption
  | decryption
  | decompress
  | terminal
  -- "Empty payload"
  | emptyPayload
  -- "Unknown compression flag: {flag}"
  | unknownFlag (flag : UInt8)
  -- "Session ID mismatch: expected {expected} or 0, got {got}"
  | sessionIdMismatch (expected got : ℕ)
  -- "Session ID mismatch", the test codec's text
  | sessionIdMismatchNull
  -- "Row update y={y} out of bounds (rows={rows})"
  | rowOutOfBounds (y rows : ℕ)
  -- "Cell update x={x} out of bounds (cols={cols})"
  | cellOutOfBounds (x cols : ℕ)
  deriving DecidableEq, Repr

/-- The `Result` of an optional value, under the error its absence stands for. -/
def okOr {α : Type} (e : Error) : Option α → Except Error α
  | some a => .ok a
  | none => .error e

@[simp] theorem okOr_some {α : Type} (e : Error) (a : α) : okOr e (some a) = .ok a := rfl

@[simp] theorem okOr_none {α : Type} (e : Error) : okOr e (none : Option α) = .error e := rfl

@[simp] theorem okOr_eq_ok {α : Type} {e : Error} {o : Option α} {a : α} :
    okOr e o = .ok a ↔ o = some a := by
  cases o <;> simp [okOr]

/-- From a successful bind both halves succeeded. -/
theorem bind_eq_ok {ε α β : Type} {x : Except ε α} {f : α → Except ε β} {b : β} :
    (x >>= f) = .ok b ↔ ∃ a, x = .ok a ∧ f a = .ok b := by
  cases x <;> simp [bind, Except.bind]

structure SocketAddr where
  ip : ℕ
  port : ℕ
  deriving DecidableEq, Repr

/-- A point in time or a length of time, in nanoseconds. `Instant::duration_since` saturates at
    zero, as subtraction of naturals does. -/
abbrev Instant := ℕ

def millis (n : ℕ) : ℕ := n * 1000000

def secs (n : ℕ) : ℕ := n * 1000000000

end Rumsh.Protocol
