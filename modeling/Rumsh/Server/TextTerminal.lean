import Rumsh.Server.Session

/-! A minimal terminal emulator, to run sessions on: printable ASCII goes to the cursor's cell and moves
    the cursor right, carriage return and line feed move it, everything else is ignored. -/

namespace Rumsh.Server
open Rumsh.Protocol

/-- The screen, of at most 65536 cells. -/
structure TextTerminal where
  grid : GridState
  wellFormed : grid.WellFormed
  small : grid.cols * grid.rows ≤ 2 ^ 16

namespace TextTerminal

def clear (cols rows : ℕ) (h : cols * rows ≤ 2 ^ 16) : TextTerminal where
  grid := { GridState.blank cols rows with cursorVisible := true }
  wellFormed := ⟨by simp [GridState.blank], by simp [GridState.blank]⟩
  small := h

/-- The cursor elsewhere on the same screen. -/
def moveTo (t : TextTerminal) (x y : ℕ) : TextTerminal where
  grid := { t.grid with cursorX := x, cursorY := y }
  wellFormed := ⟨t.wellFormed.cells, t.wellFormed.rowWrapped⟩
  small := t.small

/-- A cell drawn on the same screen. -/
def draw (t : TextTerminal) (cell : LocalCellData) : TextTerminal where
  grid := { t.grid with cells := t.grid.cells.set (t.grid.cursorY * t.grid.cols + t.grid.cursorX) cell }
  wellFormed := ⟨by simpa using t.wellFormed.cells, t.wellFormed.rowWrapped⟩
  small := t.small

def put (t : TextTerminal) (b : UInt8) : TextTerminal :=
  if b = 13 then t.moveTo 0 t.grid.cursorY
  else if b = 10 then t.moveTo t.grid.cursorX (min (t.grid.cursorY + 1) (t.grid.rows - 1))
  else if 0x20 ≤ b ∧ b < 0x7f ∧ t.grid.cursorX < t.grid.cols then
    (t.draw { blankCell with graphemes := CompactGrapheme.new [b] }).moveTo (t.grid.cursorX + 1)
      t.grid.cursorY
  else t

instance : TerminalState TextTerminal where
  new cols rows := if h : cols * rows ≤ 2 ^ 16 then .ok (clear cols rows h) else .error .terminal
  write t data := (data.foldl put t, [])
  resize t cols rows := (if h : cols * rows ≤ 2 ^ 16 then clear cols rows h else t, [])
  updateAndGetState t := (t, .ok t.grid)

end TextTerminal

end Rumsh.Server
