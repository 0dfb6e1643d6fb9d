import Rumsh.Protocol.Grid

/-! The client's mirror of the screen: `src/client/echo.rs` and the frame half of
    `src/client/terminal.rs`.

    `TerminalFrame` is the screen shown, `LocalEchoEngine` draws keystrokes on it before the server
    confirms them and can take them back. The lock around both is left out: one thread owns the
    session. An index out of bounds is a panic, `none`. Telemetry stays in `Float32`. -/

namespace Rumsh.Client
open Rumsh.Protocol

structure TerminalFrame where
  cols : ℕ
  rows : ℕ
  cellCache : List LocalCellData
  rowDirty : List Bool
  cursorX : ℕ
  cursorY : ℕ
  cursorVisible : Bool
  dirty : Bool
  reconnecting : Bool
  lastSeq : ℕ
  overlayEnabled : Bool
  rttMs : ℕ
  packetLossPct : Float32
  bandwidthKbS : Float32
  compressionRatio : Float32
  fps : ℕ
  clearRequested : Bool

namespace TerminalFrame

def new (cols rows : ℕ) : TerminalFrame :=
  { cols, rows, cellCache := List.replicate (cols * rows) blankCell,
    rowDirty := List.replicate rows true, cursorX := 0, cursorY := 0, cursorVisible := false,
    dirty := true, reconnecting := false, lastSeq := 0, overlayEnabled := false, rttMs := 0,
    packetLossPct := 0.0, bandwidthKbS := 0.0, compressionRatio := 1.0, fps := 0,
    clearRequested := false }

/-- A grid of another size starts from a blank screen of that size. -/
def resizedTo (f : TerminalFrame) (newState : GridState) : TerminalFrame :=
  if f.cols ≠ newState.cols ∨ f.rows ≠ newState.rows then
    { f with cols := newState.cols, rows := newState.rows,
             cellCache := List.replicate (newState.cols * newState.rows) blankCell,
             rowDirty := List.replicate newState.rows true, clearRequested := true }
  else f

/-- One cell of the comparison; cells outside either buffer are skipped. -/
def updateCell (newState : GridState) (y : ℕ) : TerminalFrame × Bool → ℕ → TerminalFrame × Bool
  | (f, rowChanged), x =>
    let idx := y * f.cols + x
    match f.cellCache[idx]?, newState.cells[idx]? with
    | some old, some new =>
      if old ≠ new then ({ f with cellCache := f.cellCache.set idx new }, true) else (f, rowChanged)
    | _, _ => (f, rowChanged)

/-- One row of the comparison; a changed row is marked dirty. -/
def updateRow (newState : GridState) (f : TerminalFrame) (y : ℕ) : Option TerminalFrame :=
  let (f', rowChanged) := (List.range f.cols).foldl (updateCell newState y) (f, false)
  if rowChanged then
    if y < f'.rowDirty.length then some { f' with rowDirty := f'.rowDirty.set y true, dirty := true }
    else none
  else some f'

def updateCursor (f : TerminalFrame) (newState : GridState) : TerminalFrame :=
  if f.cursorX ≠ newState.cursorX ∨ f.cursorY ≠ newState.cursorY ∨
      f.cursorVisible ≠ newState.cursorVisible then
    { f with cursorX := newState.cursorX, cursorY := newState.cursorY,
             cursorVisible := newState.cursorVisible, dirty := true }
  else f

/-- `update_from_grid_state`; the flag it returns is only read by tests. -/
def updateFromGridState (f : TerminalFrame) (newState : GridState) : Option TerminalFrame :=
  ((List.range newState.rows).foldlM (updateRow newState) (f.resizedTo newState)).map fun f' =>
    f'.updateCursor newState

/-- `copy_to` overwrites every field of the destination. -/
def copyTo (f _dest : TerminalFrame) : TerminalFrame := f

end TerminalFrame

/-! ### Local echo -/

structure PredictionEntry where
  seqNum : ℕ
  bytes : Bytes
  epoch : ℕ
  oldCursorX : ℕ
  oldCursorY : ℕ
  oldCells : List (ℕ × ℕ × LocalCellData)
  deriving DecidableEq, Repr

structure LocalEchoEngine where
  unconfirmedInputs : List PredictionEntry := []
  currentEpoch : ℕ := 0
  deriving DecidableEq, Repr

namespace LocalEchoEngine

/-- What a batch of keystrokes has drawn so far: the screen and the cells it covered. -/
abbrev Drawing := TerminalFrame × List (ℕ × ℕ × LocalCellData)

/-- Draw a cell at a position inside the screen; its first content is remembered. -/
def drawCell (d : Drawing) (x y : ℕ) (cell : LocalCellData) : Option Drawing :=
  let (f, oldCells) := d
  let idx := y * f.cols + x
  match f.cellCache[idx]? with
  | none => none
  | some old =>
    some ({ f with cellCache := f.cellCache.set idx cell },
      if oldCells.any fun (ox, oy, _) => ox == x && oy == y then oldCells
      else oldCells ++ [(x, y, old)])

/-- The line below, held at the last one. `cursor_y + 1` is a `u16` sum. -/
def nextLine (f : TerminalFrame) : ℕ := min ((f.cursorY + 1) % 2 ^ 16) (f.rows - 1)

/-- One byte of a keystroke batch: CR, LF, backspace or DEL, printable ASCII; others draw nothing. -/
def drawByte (d : Drawing) (b : UInt8) : Option Drawing :=
  let (f, oldCells) := d
  if b = 0x0d then some ({ f with cursorX := 0 }, oldCells)
  else if b = 0x0a then some ({ f with cursorX := 0, cursorY := nextLine f }, oldCells)
  else if b = 0x08 ∨ b = 0x7f then
    if f.cursorX > 0 then
      let f := { f with cursorX := f.cursorX - 1 }
      if f.cursorX < f.cols ∧ f.cursorY < f.rows then
        drawCell (f, oldCells) f.cursorX f.cursorY blankCell
      else some (f, oldCells)
    else some (f, oldCells)
  else if 0x20 ≤ b ∧ b < 0x7f then
    if f.cursorX < f.cols ∧ f.cursorY < f.rows then
      (drawCell (f, oldCells) f.cursorX f.cursorY
        { blankCell with graphemes := CompactGrapheme.new [b] }).map fun (f, oldCells) =>
          if f.cursorX + 1 ≥ f.cols then
            ({ f with cursorX := 0, cursorY := nextLine f }, oldCells)
          else ({ f with cursorX := f.cursorX + 1 }, oldCells)
    else some (f, oldCells)
  else some (f, oldCells)

/-- Draw a batch and remember how to take it back. -/
def applyKeystrokes (e : LocalEchoEngine) (frame : TerminalFrame) (bytes : Bytes) (seqNum : ℕ) :
    Option (LocalEchoEngine × TerminalFrame) :=
  (bytes.foldlM drawByte (frame, [])).map fun (frame', oldCells) =>
    ({ e with unconfirmedInputs := e.unconfirmedInputs ++
        [{ seqNum, bytes, epoch := e.currentEpoch, oldCursorX := frame.cursorX,
           oldCursorY := frame.cursorY, oldCells }] },
      frame')

/-- Confirmed and outdated batches leave from the front; the others are drawn again. -/
def reconcileFrame (e : LocalEchoEngine) (frame : TerminalFrame) (ackSeq : ℕ) :
    Option (LocalEchoEngine × TerminalFrame) :=
  let surviving := e.unconfirmedInputs.dropWhile fun front =>
    front.seqNum ≤ ackSeq || front.epoch < e.currentEpoch
  surviving.foldlM (fun (e, frame) entry => e.applyKeystrokes frame entry.bytes entry.seqNum)
    ({ e with unconfirmedInputs := [] }, frame)

/-- Put back one remembered cell, if it is still inside the screen. -/
def restoreCell (f : TerminalFrame) (old : ℕ × ℕ × LocalCellData) : Option TerminalFrame :=
  let (x, y, cell) := old
  if x < f.cols ∧ y < f.rows then
    let idx := y * f.cols + x
    if idx < f.cellCache.length then some { f with cellCache := f.cellCache.set idx cell } else none
  else some f

/-- Take back one batch. -/
def restoreEntry (f : TerminalFrame) (entry : PredictionEntry) : Option TerminalFrame :=
  entry.oldCells.reverse.foldlM restoreCell
    { f with cursorX := entry.oldCursorX, cursorY := entry.oldCursorY }

/-- Take back every batch, the last one first, and start a new epoch. -/
def abort (e : LocalEchoEngine) (frame : TerminalFrame) : Option (LocalEchoEngine × TerminalFrame) :=
  (e.unconfirmedInputs.reverse.foldlM restoreEntry frame).map fun frame' =>
    ({ unconfirmedInputs := [], currentEpoch := e.currentEpoch + 1 }, frame')

end LocalEchoEngine

/-! ### The mirror -/

structure ClientTerminal where
  frame : TerminalFrame
  echoEngine : LocalEchoEngine

namespace ClientTerminal

def new (cols rows : ℕ) : ClientTerminal :=
  { frame := TerminalFrame.new cols rows, echoEngine := {} }

def ofPair (p : LocalEchoEngine × TerminalFrame) : ClientTerminal :=
  { frame := p.2, echoEngine := p.1 }

/-- The pending predictions are drawn again on top of the new screen, pruned by its number. -/
def applyFrame (t : ClientTerminal) (newState : GridState) (serverSeq : ℕ) : Option ClientTerminal :=
  (t.frame.updateFromGridState newState).bind fun frame =>
    (t.echoEngine.reconcileFrame { frame with lastSeq := serverSeq } serverSeq).map ofPair

def predictInput (t : ClientTerminal) (bytes : Bytes) (clientSeq : ℕ) : Option ClientTerminal :=
  (t.echoEngine.applyKeystrokes t.frame bytes clientSeq).map ofPair

def acknowledge (t : ClientTerminal) (serverAckSeq : ℕ) : Option ClientTerminal :=
  (t.echoEngine.reconcileFrame t.frame serverAckSeq).map ofPair

def abortPrediction (t : ClientTerminal) : Option ClientTerminal :=
  (t.echoEngine.abort t.frame).map ofPair

/-- A frame to paint, if anything changed since the last one. -/
def consumeUpdates (t : ClientTerminal) (dest : TerminalFrame) :
    ClientTerminal × TerminalFrame × Bool :=
  if t.frame.dirty || t.frame.clearRequested then
    ({ t with frame := { t.frame with
        dirty := false, rowDirty := t.frame.rowDirty.map fun _ => false, clearRequested := false } },
      t.frame.copyTo dest, true)
  else (t, dest, false)

/-- Exponential smoothing of the round-trip time, from the first sample on. -/
def smoothedRtt (old rtt : ℕ) : ℕ :=
  if old = 0 then rtt else (old.toFloat32 * 0.8 + rtt.toFloat32 * 0.2).toUInt32.toNat

def recordRttLoss (t : ClientTerminal) (rttMs : Option ℕ) (lossPct : Option Float32) :
    ClientTerminal :=
  let newRtt := match rttMs with
    | some rtt => smoothedRtt t.frame.rttMs rtt
    | none => t.frame.rttMs
  let newLoss := match lossPct with
    | some loss => if (t.frame.packetLossPct - loss).abs > 0.1 then some loss else none
    | none => none
  let changed := t.frame.rttMs != newRtt || newLoss.isSome
  { t with frame := { t.frame with
      rttMs := newRtt, packetLossPct := newLoss.getD t.frame.packetLossPct,
      dirty := t.frame.dirty || (t.frame.overlayEnabled && changed) } }

def recordBandwidthCompression (t : ClientTerminal) (kbS ratio : Float32) : ClientTerminal :=
  let changed := decide ((t.frame.bandwidthKbS - kbS).abs > 0.1) ||
    decide ((t.frame.compressionRatio - ratio).abs > 0.1)
  { t with frame := { t.frame with
      bandwidthKbS := if changed then kbS else t.frame.bandwidthKbS,
      compressionRatio := if changed then ratio else t.frame.compressionRatio,
      dirty := t.frame.dirty || (t.frame.overlayEnabled && changed) } }

def recordFps (t : ClientTerminal) (fps : ℕ) : ClientTerminal :=
  { t with frame := { t.frame with
      fps, dirty := t.frame.dirty || (t.frame.overlayEnabled && t.frame.fps != fps) } }

/-- When the banner goes, the line it was on is painted again. -/
def setReconnecting (t : ClientTerminal) (reconnecting : Bool) : Option ClientTerminal :=
  if t.frame.reconnecting ≠ reconnecting then
    let frame := { t.frame with reconnecting, dirty := true }
    if reconnecting then some { t with frame }
    else
      let y := t.frame.rows - 1
      if y < t.frame.rowDirty.length then
        some { t with frame := { frame with rowDirty := t.frame.rowDirty.set y true } }
      else none
  else some t

def setOverlayEnabled (t : ClientTerminal) (enabled : Bool) : ClientTerminal :=
  { t with frame := { t.frame with overlayEnabled := enabled, dirty := true } }

def toggleOverlay (t : ClientTerminal) : ClientTerminal :=
  t.setOverlayEnabled !t.frame.overlayEnabled

def rttMs (t : ClientTerminal) : ℕ := t.frame.rttMs

def markDirty (t : ClientTerminal) : ClientTerminal :=
  { t with frame := { t.frame with dirty := true } }

end ClientTerminal

end Rumsh.Client
