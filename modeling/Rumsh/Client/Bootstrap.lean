import Rumsh.Schemes.Radix
import Rumsh.Protocol.Payload
import Rumsh.Protocol.Grid

/-! The start of a session: `src/client/bootstrap.rs`, and the line the server of `src/main.rs` prints.

    The client reads the output of the remote command line by line until it finds the token. The key in it
    is cut into pairs of bytes, wherever its characters end, and each pair is left to the standard parser
    of numbers. A cut inside a character is a panic, `none`. -/

namespace Rumsh.Client
open Rumsh.Schemes Rumsh.Protocol Utf8 Radix

/-- What the bootstrap code returns as an error. -/
inductive BootstrapError where
  -- the line is no UTF-8
  | invalidData
  -- the port is no `u16`
  | parsePort
  -- a pair of the key is no `u8`
  | parseByte
  -- "Key must be exactly 64 hex characters (32 bytes)"
  | keyLength
  -- "Failed to parse token from bootstrap stream"
  | noToken
  deriving DecidableEq, Repr

/-! ### The token line -/

/-- `{:02x}` of every byte. -/
def keyHex (key : Key) : Text :=
  key.toList.flatMap fun b => [Nat.digitChar (b.toNat / 16), Nat.digitChar (b.toNat % 16)]

def tokenPrefix : Text := ['R', 'U', 'M', 'S', 'H', ' ', 'C', 'O', 'N', 'N', 'E', 'C', 'T', ' ']

/-- `RUMSH CONNECT {} {}` -/
def connectToken (port : ℕ) (key : Key) : Text :=
  tokenPrefix ++ Nat.toDigits 10 port ++ [' '] ++ keyHex key

/-! ### The stream -/

/-- `lines` drops a carriage return before the line feed. -/
def stripCr (line : Text) : Text := if line.getLast? = some '\r' then line.dropLast else line

/-- The lines between the line feeds, `none` for one that is no UTF-8. An empty last one is the end. -/
def readPieces : List Bytes → List (Option Text)
  | [] => []
  | [last] => if last = [] then [] else [decode last]
  | line :: rest => (decode line).map stripCr :: readPieces rest

/-- `reader.lines()` -/
def readLines (stream : Bytes) : List (Option Text) := readPieces (stream.splitOn 10)

/-- The loop of `parse_token`; the lines after the token are not read. -/
def parseLines : List (Option Text) → Except BootstrapError (ℕ × Text)
  | [] => .error .noToken
  | none :: _ => .error .invalidData
  | some line :: rest =>
    if tokenPrefix.isPrefixOf line then
      match splitWhitespace line with
      | [_, _, port, key] =>
        match fromStrRadix 10 65535 (encode port) with
        | some port => .ok (port, key)
        | none => .error .parsePort
      | _ => parseLines rest
    else parseLines rest

/-- `parse_token` -/
def parseToken (stream : Bytes) : Except BootstrapError (ℕ × Text) := parseLines (readLines stream)

/-! ### The key -/

/-- `&s[from..to]` -/
def slice (s : Bytes) (i j : ℕ) : Option Bytes :=
  if isCharBoundary s i ∧ isCharBoundary s j then some ((s.drop i).take (j - i)) else none

/-- The loop of `parse_hex_key`. -/
def parsePairs (s : Bytes) : Key → List ℕ → Option (Except BootstrapError Key)
  | key, [] => some (.ok key)
  | key, i :: is =>
    match slice s (i * 2) (i * 2 + 2) with
    | none => none
    | some byteStr =>
      match fromStrRadix 16 255 byteStr with
      | none => some (.error .parseByte)
      | some b => parsePairs s (key.setIfInBounds i (UInt8.ofNat b)) is

/-- `parse_hex_key` -/
def parseHexKey (s : Text) : Option (Except BootstrapError Key) :=
  if (encode s).length ≠ 64 then some (.error .keyLength)
  else parsePairs (encode s) (Vector.replicate 32 0) (List.range 32)

end Rumsh.Client
