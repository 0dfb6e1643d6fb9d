import Rumsh.Protocol.Basic

/-! The escape interpreter of `src/client/escape.rs`: a state machine over the bytes of stdin that
    holds back a `~` at the start of a line until the next byte says whether it is a command. -/

namespace Rumsh.Client
open Rumsh.Protocol

/-- Local commands: `~.`, `~^Z`, `~?` and `~o`. -/
inductive EscapeCommand where
  | disconnect
  | suspend
  | help
  | toggleOverlay
  deriving DecidableEq, Repr

inductive EscapeState where
  | normal (lastWasNewline : Bool)
  | waitingForCommand
  deriving DecidableEq, Repr

structure EscapeInterpreter where
  state : EscapeState
  deriving DecidableEq, Repr

inductive InterpreterResult where
  | sendBytes (bytes : Bytes)
  | command (cmd : EscapeCommand)
  | consume
  deriving DecidableEq, Repr

namespace EscapeInterpreter

/-- The start of the session acts as a newline. -/
def new : EscapeInterpreter := ⟨.normal true⟩

def isNewline (b : UInt8) : Bool := b == 0x0d || b == 0x0a

/-- The state machine on one byte. -/
def handleByte (i : EscapeInterpreter) (b : UInt8) : EscapeInterpreter × InterpreterResult :=
  match i.state with
  | .normal lastWasNewline =>
    if lastWasNewline ∧ b = 0x7e then (⟨.waitingForCommand⟩, .consume)
    else (⟨.normal (isNewline b)⟩, .sendBytes [b])
  | .waitingForCommand =>
    if b = 0x2e then (⟨.normal false⟩, .command .disconnect)
    else if b = 0x1a then (⟨.normal true⟩, .command .suspend)
    else if b = 0x3f then (⟨.normal false⟩, .command .help)
    else if b = 0x6f then (⟨.normal false⟩, .command .toggleOverlay)
    else if b = 0x7e then (⟨.normal false⟩, .sendBytes [0x7e])
    -- not a command: the held tilde goes out with the byte
    else (⟨.normal (isNewline b)⟩, .sendBytes [0x7e, b])

end EscapeInterpreter

end Rumsh.Client
