import Rumsh.Protocol.Grapheme
import Rumsh.Server.Session

/-! The server's terminal state: `src/server/state.rs`.

    The emulator is a third-party library, the class `Ghostty`. `ServerTerminalState` keeps one grid and
    compiles into it only the rows the emulator reports dirty, or all of them after a resize. Any call on
    the emulator can fail, and what was compiled before it stays in the grid. An index out of bounds or a
    character that does not fit its buffer is a panic, `none`. -/

namespace Rumsh.Server
open Rumsh.Schemes Rumsh.Protocol Utf8

/-- What the emulator reports of a cell. -/
structure GhosttyCell where
  graphemes : Text
  fgColor : Option RgbColorUpdate
  bgColor : Option RgbColorUpdate
  bold : Bool
  italic : Bool
  inverse : Bool
  underline : Bool
  deriving DecidableEq, Repr

/-- The accessors of a snapshot. -/
inductive GhosttyCall where
  | cols
  | rows
  | cursorVisible
  | cursorViewport
  | rowIterator
  | dirty (y : ℕ)
  | rawRow (y : ℕ)
  | isWrapped (y : ℕ)
  | cellIterator (y : ℕ)
  | graphemesLen (y x : ℕ)
  | graphemes (y x : ℕ)
  | fgColor (y x : ℕ)
  | bgColor (y x : ℕ)
  | style (y x : ℕ)
  deriving DecidableEq, Repr

/-- The emulator with its render state and iterators. `update` takes the snapshot the accessors read; it
    has `rows` rows of `cols` cells. An accessor reports its value or fails, which does not change the
    state. -/
class Ghostty (G : Type) where
  new : (cols rows : ℕ) → Except Error G
  vtWrite : G → Bytes → G × List Bytes
  resize : G → (cols rows : ℕ) → G × List Bytes × Except Error Unit
  update : G → G × Except Error Unit
  fails : G → GhosttyCall → Bool
  cols : G → ℕ
  rows : G → ℕ
  cursorVisible : G → Bool
  cursorViewport : G → Option (ℕ × ℕ)
  rowDirty : G → ℕ → Bool
  isWrapped : G → ℕ → Bool
  cell : G → ℕ → ℕ → GhosttyCell
  /-- `row.set_dirty(false)` -/
  clearRowDirty : G → ℕ → G × Except Error Unit
  /-- `snapshot.set_dirty(Dirty::Clean)` -/
  clearDirty : G → G × Except Error Unit

/-! ### The text of a cell -/

/-- `char::is_control`: the category Cc. -/
def isControl (c : Char) : Bool := c.toNat < 0x20 || (0x7f ≤ c.toNat && c.toNat < 0xa0)

def cleanChar (c : Char) : Char := if isControl c then ' ' else c

/-- `encode_utf8` at the end of what is in a buffer of this size; it panics where the rest is too
    short. -/
def encodeInto (size : ℕ) (buf : Bytes) (c : Char) : Option Bytes :=
  let s := String.utf8EncodeChar c
  if buf.length + s.length ≤ size then some (buf ++ s) else none

/-- The branch for at most 16 chars: up to a NUL they are encoded, cleaned, into a buffer on the stack. -/
def stackText (size : ℕ) (chars : Text) : Option Bytes :=
  (chars.takeWhile (· ≠ '\x00')).foldlM (fun buf c => encodeInto size buf (cleanChar c)) []

/-- The branch for more: a `String`, cleaned if it has to be. -/
def heapText (chars : Text) : Bytes :=
  if chars.any isControl then encode (chars.map cleanChar) else encode chars

/-- The graphemes of a cell that reports these chars. -/
def compileGraphemes (chars : Text) : Option CompactGrapheme :=
  if chars.length = 0 then some (CompactGrapheme.new [0x20])
  else if chars.length ≤ 16 then (stackText 64 chars).map CompactGrapheme.new
  else some (CompactGrapheme.new (heapText chars))

def styleFlags (cell : GhosttyCell) : UInt8 :=
  (if cell.bold then STYLE_BOLD else 0) ||| (if cell.italic then STYLE_ITALIC else 0) |||
    (if cell.inverse then STYLE_INVERSE else 0) ||| (if cell.underline then STYLE_UNDERLINE else 0)

/-- The cell of the grid. -/
def compileCell (cell : GhosttyCell) : Option LocalCellData :=
  (compileGraphemes cell.graphemes).map fun graphemes =>
    { graphemes, fg := cell.fgColor, bg := cell.bgColor, styleFlags := styleFlags cell }

/-! ### Fallible steps -/

/-- A step that may panic, and may fail with the state as it has become. -/
abbrev Outcome (σ α : Type) := Option (σ × Except Error α)

def andThen {σ α β : Type} (r : Outcome σ α) (next : σ → α → Outcome σ β) : Outcome σ β :=
  match r with
  | some (s, .ok a) => next s a
  | some (s, .error e) => some (s, .error e)
  | none => none

structure ServerTerminalState (G : Type) where
  terminal : G
  cols : ℕ
  rows : ℕ
  gridState : GridState
  forceFull : Bool

namespace ServerTerminalState
variable {G : Type} [Ghostty G]

def new (cols rows : ℕ) : Except Error (ServerTerminalState G) := do
  let terminal ← Ghostty.new cols rows
  return { terminal, cols, rows, gridState := GridState.blank cols rows, forceFull := true }

def write (s : ServerTerminalState G) (data : Bytes) : ServerTerminalState G × List Bytes :=
  let (terminal, replies) := Ghostty.vtWrite s.terminal data
  ({ s with terminal }, replies)

/-- A blank grid of other dimensions, to be compiled in full. -/
def reset (s : ServerTerminalState G) (cols rows : ℕ) : ServerTerminalState G :=
  { s with cols, rows, forceFull := true
           gridState := { s.gridState with cols, rows
                                           cells := List.replicate (cols * rows) blankCell
                                           rowWrapped := List.replicate rows false } }

def resize (s : ServerTerminalState G) (cols rows : ℕ) :
    ServerTerminalState G × List Bytes × Except Error Unit :=
  match Ghostty.resize s.terminal cols rows with
  | (terminal, replies, .error e) => ({ s with terminal }, replies, .error e)
  | (terminal, replies, .ok ()) => ({ s with terminal }.reset cols rows, replies, .ok ())

/-- `?` on an accessor. -/
def check (s : ServerTerminalState G) (call : GhosttyCall) : Outcome (ServerTerminalState G) Unit :=
  some (s, if Ghostty.fails s.terminal call then .error .terminal else .ok ())

/-- One cell of a row; without chars none are asked for. A write outside the grid is skipped. -/
def compileAt (s : ServerTerminalState G) (y x : ℕ) : Outcome (ServerTerminalState G) Unit :=
  let cell := Ghostty.cell s.terminal y x
  andThen (s.check (.graphemesLen y x)) fun s _ =>
  andThen (if cell.graphemes.length = 0 then some (s, .ok ()) else s.check (.graphemes y x)) fun s _ =>
  (compileCell cell).bind fun cellData =>
  andThen (s.check (.fgColor y x)) fun s _ =>
  andThen (s.check (.bgColor y x)) fun s _ =>
  andThen (s.check (.style y x)) fun s _ =>
  let idx := y * s.cols + x
  some ({ s with gridState := { s.gridState with cells := s.gridState.cells.set idx cellData } }, .ok ())

/-- The cells of a row, left to right. -/
def compileCells (s : ServerTerminalState G) (y : ℕ) : List ℕ → Outcome (ServerTerminalState G) Unit
  | [] => some (s, .ok ())
  | x :: xs => andThen (s.compileAt y x) fun s _ => s.compileCells y xs

/-- `row_wrapped[y] = …` -/
def setWrapped (s : ServerTerminalState G) (y : ℕ) (wrapped : Bool) :
    Outcome (ServerTerminalState G) Unit :=
  if y < s.gridState.rowWrapped.length then
    some ({ s with gridState :=
      { s.gridState with rowWrapped := s.gridState.rowWrapped.set y wrapped } }, .ok ())
  else none

/-- `row.set_dirty(false)?` -/
def clearRow (s : ServerTerminalState G) (y : ℕ) : Outcome (ServerTerminalState G) Unit :=
  let (terminal, r) := Ghostty.clearRowDirty s.terminal y
  some ({ s with terminal }, r)

/-- A row that is to be compiled. -/
def compileRow (s : ServerTerminalState G) (y : ℕ) : Outcome (ServerTerminalState G) Unit :=
  andThen (s.check (.rawRow y)) fun s _ =>
  andThen (s.check (.isWrapped y)) fun s _ =>
  andThen (s.setWrapped y (Ghostty.isWrapped s.terminal y)) fun s _ =>
  andThen (s.check (.cellIterator y)) fun s _ =>
  andThen (s.compileCells y (List.range (Ghostty.cols s.terminal))) fun s _ =>
  s.clearRow y

/-- One turn of the row loop: a clean row is skipped, unless everything is to be compiled. -/
def visitRow (s : ServerTerminalState G) (y : ℕ) : Outcome (ServerTerminalState G) Unit :=
  if s.forceFull then s.compileRow y
  else
    andThen (s.check (.dirty y)) fun s _ =>
    if Ghostty.rowDirty s.terminal y then s.compileRow y else some (s, .ok ())

def visitRows (s : ServerTerminalState G) : List ℕ → Outcome (ServerTerminalState G) Unit
  | [] => some (s, .ok ())
  | y :: ys => andThen (s.visitRow y) fun s _ => s.visitRows ys

/-- The snapshot's dimensions become the grid's. -/
def resync (s : ServerTerminalState G) (cols rows : ℕ) : ServerTerminalState G :=
  if s.cols ≠ cols ∨ s.rows ≠ rows then s.reset cols rows else s

/-- `render_state.update(&terminal)?` -/
def snapshot (s : ServerTerminalState G) : Outcome (ServerTerminalState G) Unit :=
  let (terminal, r) := Ghostty.update s.terminal
  some ({ s with terminal }, r)

/-- `snapshot.set_dirty(Dirty::Clean)?` -/
def clean (s : ServerTerminalState G) : Outcome (ServerTerminalState G) Unit :=
  let (terminal, r) := Ghostty.clearDirty s.terminal
  some ({ s with terminal }, r)

def cursorOf (g : G) : ℕ × ℕ := (Ghostty.cursorViewport g).getD (0, 0)

/-- `update_and_get_state`. -/
def updateAndGetState (s : ServerTerminalState G) : Outcome (ServerTerminalState G) GridState :=
  andThen s.snapshot fun s _ =>
  andThen (s.check .cols) fun s _ =>
  andThen (s.check .rows) fun s _ =>
  andThen (s.check .cursorVisible) fun s _ =>
  andThen (s.check .cursorViewport) fun s _ =>
  let cols := Ghostty.cols s.terminal
  let rows := Ghostty.rows s.terminal
  let cursorVisible := Ghostty.cursorVisible s.terminal
  let (cursorX, cursorY) := cursorOf s.terminal
  let s := s.resync cols rows
  andThen (s.check .rowIterator) fun s _ =>
  andThen (s.visitRows (List.range rows)) fun s _ =>
  let s := { s with forceFull := false }
  andThen s.clean fun s _ =>
  let s := { s with gridState := { s.gridState with cursorX, cursorY, cursorVisible } }
  some (s, .ok s.gridState)

/-- The state behind the session. A panic is given as an error here; it is excluded for every state the
    session can reach. -/
instance : TerminalState (ServerTerminalState G) where
  new := new
  write := write
  resize s cols rows := let (s', replies, _) := s.resize cols rows; (s', replies)
  updateAndGetState s := (s.updateAndGetState).getD (s, .error .terminal)

end ServerTerminalState

end Rumsh.Server
