import Mathlib.Data.List.Induction
import Rumsh.Client.Escape

/-! What the escape interpreter makes of any input.

    An input is read in pieces: a byte that is sent, and `~` with a second byte that names a command.
    The state says only whether a `~` would start such a piece here, and whether one is held. Doubling
    each `~` at the start of a line is therefore enough to type any string. -/

namespace Rumsh.Client
open Rumsh.Protocol

namespace EscapeInterpreter

/-! ### Feeding -/

/-- The input byte by byte, with what the machine says to each. -/
def feed : EscapeInterpreter → Bytes → EscapeInterpreter × List InterpreterResult
  | i, [] => (i, [])
  | i, b :: input =>
    let (i', result) := i.handleByte b
    let (j, results) := i'.feed input
    (j, result :: results)

def bytesOf : InterpreterResult → Bytes
  | .sendBytes bytes => bytes
  | _ => []

def commandsOf : InterpreterResult → List EscapeCommand
  | .command cmd => [cmd]
  | _ => []

/-- The bytes an input sends to the server. -/
def sent (i : EscapeInterpreter) (input : Bytes) : Bytes := (i.feed input).2.flatMap bytesOf

/-- The commands an input issues. -/
def issued (i : EscapeInterpreter) (input : Bytes) : List EscapeCommand :=
  (i.feed input).2.flatMap commandsOf

theorem feed_concat (i : EscapeInterpreter) (input : Bytes) (b : UInt8) :
    i.feed (input ++ [b]) =
      (((i.feed input).1.handleByte b).1, (i.feed input).2 ++ [((i.feed input).1.handleByte b).2]) := by
  induction input generalizing i with
  | nil => rfl
  | cons a input ih =>
    simp only [List.cons_append, feed, ih]

theorem sent_concat (i : EscapeInterpreter) (input : Bytes) (b : UInt8) :
    i.sent (input ++ [b]) = i.sent input ++ bytesOf ((i.feed input).1.handleByte b).2 := by
  simp [sent, feed_concat]

theorem issued_concat (i : EscapeInterpreter) (input : Bytes) (b : UInt8) :
    i.issued (input ++ [b]) = i.issued input ++ commandsOf ((i.feed input).1.handleByte b).2 := by
  simp [issued, feed_concat]

/-! ### Pieces -/

/-- A byte for the server, or `~` and the byte that makes it an escape. -/
inductive Piece where
  | byte (b : UInt8)
  | escape (c : UInt8)
  deriving DecidableEq, Repr

namespace Piece

def text : Piece → Bytes
  | .byte b => [b]
  | .escape c => [0x7e, c]

/-- `~~` sends one tilde, the other escapes nothing. -/
def sends : Piece → Bytes
  | .byte b => [b]
  | .escape c => if c = 0x7e then [0x7e] else []

/-- The second byte of `~.`, `~^Z`, `~?` and `~o`. -/
def command : Piece → List EscapeCommand
  | .byte _ => []
  | .escape c =>
    if c = 0x2e then [.disconnect]
    else if c = 0x1a then [.suspend]
    else if c = 0x3f then [.help]
    else if c = 0x6f then [.toggleOverlay]
    else []

end Piece

/-- The escapes there are: `~.`, `~^Z`, `~?`, `~o` and `~~`. -/
def Recognised (c : UInt8) : Prop := c ∈ ([0x2e, 0x1a, 0x3f, 0x6f, 0x7e] : Bytes)

instance (c : UInt8) : Decidable (Recognised c) := inferInstanceAs (Decidable (_ ∈ _))

/-- The start of the stream, or right after a carriage return or line feed. -/
def LineStart (before : Bytes) : Prop := before = [] ∨ ∃ b, before.getLast? = some b ∧ isNewline b = true

/-- Where a `~` is held: at a line start, and right after `~^Z`. -/
def EscapePoint (before : List Piece) : Prop :=
  LineStart (before.flatMap Piece.text) ∨ before.getLast? = some (.escape 0x1a)

/-- A reading of an input: its pieces, and the tilde the machine holds, if it holds one. -/
structure Reading (input : Bytes) (i : EscapeInterpreter) (sent : Bytes) (issued : List EscapeCommand)
    (pieces : List Piece) (held : Bool) : Prop where
  text : input = pieces.flatMap Piece.text ++ if held then [0x7e] else []
  sent : sent = pieces.flatMap Piece.sends
  issued : issued = pieces.flatMap Piece.command
  waits : held = true ↔ i.state = .waitingForCommand
  heldPoint : held = true → EscapePoint pieces
  point : i.state = .normal true → EscapePoint pieces
  escapes : ∀ before c after, pieces = before ++ .escape c :: after → Recognised c ∧ EscapePoint before

theorem escapePoint_newline {pieces : List Piece} {b : UInt8} (h : isNewline b = true) :
    EscapePoint (pieces ++ [.byte b]) := .inl (.inr ⟨b, by simp [Piece.text], h⟩)

/-- The escapes of a reading to which one piece is added. -/
theorem escapes_concat {pieces : List Piece} {p : Piece}
    (h : ∀ before c after, pieces = before ++ .escape c :: after → Recognised c ∧ EscapePoint before)
    (hp : ∀ c, p = .escape c → Recognised c ∧ EscapePoint pieces) :
    ∀ before c after, pieces ++ [p] = before ++ .escape c :: after → Recognised c ∧ EscapePoint before := by
  intro before c after heq
  rcases List.eq_nil_or_concat after with rfl | ⟨after, q, rfl⟩
  · obtain ⟨rfl, hlast⟩ := List.append_inj' heq rfl
    exact hp c (List.singleton_inj.mp hlast)
  · rw [List.concat_eq_append, ← List.cons_append, ← List.append_assoc] at heq
    exact h before c after (List.append_inj' heq rfl).1

section Step
variable {input sent : Bytes} {issued : List EscapeCommand} {pieces : List Piece} {i : EscapeInterpreter}

/-- STEP: a byte while no tilde is held. -/
theorem Reading.normal {nl : Bool} (h : Reading input ⟨.normal nl⟩ sent issued pieces false) (b : UInt8) :
    ∃ pieces' held', Reading (input ++ [b]) (handleByte ⟨.normal nl⟩ b).1
      (sent ++ bytesOf (handleByte ⟨.normal nl⟩ b).2) (issued ++ commandsOf (handleByte ⟨.normal nl⟩ b).2)
      pieces' held' := by
  have htext : input = pieces.flatMap Piece.text := by simpa using h.text
  by_cases hb : nl = true ∧ b = 0x7e
  · -- the tilde is held
    obtain ⟨rfl, rfl⟩ := hb
    refine ⟨pieces, true, ?_, ?_, ?_, ?_, fun _ => h.point rfl, ?_, h.escapes⟩
    · simp [htext]
    · simpa [handleByte, bytesOf] using h.sent
    · simpa [handleByte, commandsOf] using h.issued
    · simp [handleByte]
    · simp [handleByte]
  · have hstep : handleByte ⟨.normal nl⟩ b = (⟨.normal (isNewline b)⟩, .sendBytes [b]) := by
      simp only [handleByte, if_neg hb]
    rw [hstep]
    refine ⟨pieces ++ [.byte b], false, ?_, ?_, ?_, by simp, by simp, fun hnl => ?_, ?_⟩
    · simp [htext, Piece.text]
    · simp [h.sent, bytesOf, Piece.sends]
    · simp [h.issued, commandsOf, Piece.command]
    · exact escapePoint_newline (by simpa using hnl)
    · exact escapes_concat h.escapes fun c hc => nomatch hc

/-- STEP: the second byte of an escape. -/
theorem Reading.escape {c : UInt8} {nl : Bool} {r : InterpreterResult}
    (h : Reading input ⟨.waitingForCommand⟩ sent issued pieces true) (hc : Recognised c)
    (hsent : bytesOf r = Piece.sends (.escape c)) (hissued : commandsOf r = Piece.command (.escape c))
    (hnl : nl = true → c = 0x1a) :
    Reading (input ++ [c]) ⟨.normal nl⟩ (sent ++ bytesOf r) (issued ++ commandsOf r)
      (pieces ++ [.escape c]) false := by
  have htext : input = pieces.flatMap Piece.text ++ [0x7e] := by simpa using h.text
  refine ⟨?_, ?_, ?_, by simp, by simp, fun hs => .inr ?_, ?_⟩
  · simp [htext, Piece.text]
  · simp [h.sent, hsent]
  · simp [h.issued, hissued]
  · rw [hnl (by simpa using hs), List.getLast?_concat]
  · refine escapes_concat h.escapes fun c' hc' => ?_
    cases hc'
    exact ⟨hc, h.heldPoint rfl⟩

/-- STEP: a byte that is no command lets the held tilde go. -/
theorem Reading.release (h : Reading input ⟨.waitingForCommand⟩ sent issued pieces true) (b : UInt8) :
    Reading (input ++ [b]) ⟨.normal (isNewline b)⟩ (sent ++ bytesOf (.sendBytes [0x7e, b]))
      (issued ++ commandsOf (.sendBytes [0x7e, b])) (pieces ++ [.byte 0x7e, .byte b]) false := by
  have htext : input = pieces.flatMap Piece.text ++ [0x7e] := by simpa using h.text
  refine ⟨?_, ?_, ?_, by simp, by simp, fun hs => ?_, ?_⟩
  · simp [htext, Piece.text]
  · simp [h.sent, bytesOf, Piece.sends]
  · simp [h.issued, commandsOf, Piece.command]
  · have hnl : isNewline b = true := by simpa using hs
    rw [show pieces ++ [.byte 0x7e, .byte b] = (pieces ++ [.byte 0x7e]) ++ [.byte b] by simp]
    exact escapePoint_newline hnl
  · have hone := escapes_concat (p := .byte 0x7e) h.escapes fun c hc => nomatch hc
    simpa using escapes_concat (p := .byte b) hone fun c hc => nomatch hc

/-- STEP: a byte while a tilde is held. -/
theorem Reading.waiting (h : Reading input ⟨.waitingForCommand⟩ sent issued pieces true) (b : UInt8) :
    ∃ pieces' held', Reading (input ++ [b]) (handleByte ⟨.waitingForCommand⟩ b).1
      (sent ++ bytesOf (handleByte ⟨.waitingForCommand⟩ b).2)
      (issued ++ commandsOf (handleByte ⟨.waitingForCommand⟩ b).2) pieces' held' := by
  by_cases hb : Recognised b
  · refine ⟨pieces ++ [.escape b], false, ?_⟩
    simp only [Recognised, List.mem_cons, List.not_mem_nil, or_false] at hb
    rcases hb with rfl | rfl | rfl | rfl | rfl
    · exact h.escape (by decide) rfl rfl (by decide)
    · exact h.escape (by decide) rfl rfl (by decide)
    · exact h.escape (by decide) rfl rfl (by decide)
    · exact h.escape (by decide) rfl rfl (by decide)
    · exact h.escape (by decide) rfl rfl (by decide)
  · simp only [Recognised, List.mem_cons, List.not_mem_nil, or_false, not_or] at hb
    obtain ⟨h1, h2, h3, h4, h5⟩ := hb
    have hstep : handleByte ⟨.waitingForCommand⟩ b =
        (⟨.normal (isNewline b)⟩, .sendBytes [0x7e, b]) := by
      simp only [handleByte, if_neg h1, if_neg h2, if_neg h3, if_neg h4, if_neg h5]
    rw [hstep]
    exact ⟨_, _, h.release b⟩

end Step

/-- RUN: every input has a reading. -/
theorem exists_reading (input : Bytes) : ∃ pieces held,
    Reading input (new.feed input).1 (new.sent input) (new.issued input) pieces held := by
  induction input using List.reverseRecOn with
  | nil =>
    refine ⟨[], false, rfl, rfl, rfl, by simp [feed, new], by simp, fun _ => .inl (.inl rfl), ?_⟩
    intro before c after h
    simp at h
  | append_singleton input b ih =>
    obtain ⟨pieces, held, h⟩ := ih
    rw [feed_concat, sent_concat, issued_concat]
    rcases hs : (new.feed input).1 with ⟨nl | -⟩
    · rw [hs] at h
      cases held with
      | true => exact absurd (h.waits.mp rfl) (by simp)
      | false => exact h.normal b
    · rw [hs] at h
      cases held with
      | true => exact h.waiting b
      | false => exact absurd (h.waits.mpr rfl) (by simp)

/-! ### Typing -/

/-- The string with each `~` at the start of a line doubled; the flag is whether the string stands at
    one. -/
def escaped : (lineStart : Bool) → Bytes → Bytes
  | _, [] => []
  | lineStart, b :: s =>
    if lineStart ∧ b = 0x7e then 0x7e :: 0x7e :: escaped false s else b :: escaped (isNewline b) s

/-- RUN: an escaped string is sent as it was, wherever it starts. -/
theorem feed_escaped (s : Bytes) (nl : Bool) :
    (sent ⟨.normal nl⟩ (escaped nl s) = s ∧ issued ⟨.normal nl⟩ (escaped nl s) = []) ∧
      (feed ⟨.normal nl⟩ (escaped nl s)).1.state ≠ .waitingForCommand := by
  induction s generalizing nl with
  | nil => simp [escaped, sent, issued, feed]
  | cons b s ih =>
    unfold escaped
    by_cases hb : nl = true ∧ b = 0x7e
    · obtain ⟨⟨hsent, hissued⟩, hstate⟩ := ih false
      obtain ⟨rfl, rfl⟩ := hb
      simp only [sent, issued] at hsent hissued
      simp [sent, issued, feed, handleByte, bytesOf, commandsOf, hsent, hissued, hstate]
    · obtain ⟨⟨hsent, hissued⟩, hstate⟩ := ih (isNewline b)
      simp only [sent, issued] at hsent hissued
      simp [if_neg hb, sent, issued, feed, handleByte, bytesOf, commandsOf, hsent, hissued, hstate]

/-- TYPING: any string can be typed by doubling the tildes at its line starts; and whatever is typed, a
    byte is sent once and in order, or belongs to an escape at a line start or right after `~^Z`, or is
    the tilde held. -/
theorem typing_exact (s : Bytes) :
    (new.sent (escaped true s) = s ∧ new.issued (escaped true s) = [] ∧
      (new.feed (escaped true s)).1.state ≠ .waitingForCommand) ∧
    ∃ pieces held, Reading s (new.feed s).1 (new.sent s) (new.issued s) pieces held := by
  obtain ⟨⟨hsent, hissued⟩, hstate⟩ := feed_escaped s true
  exact ⟨⟨hsent, hissued, hstate⟩, exists_reading s⟩

end EscapeInterpreter

end Rumsh.Client
