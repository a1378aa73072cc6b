import DhtStore.Bytes.Hex
import DhtStore.NodeId

namespace DhtStore.NodeId

/-- Why bytes or a text are no id. -/
inductive ParseError
  /-- The number of bytes is not 20. -/
  | size (got : Nat)
  /-- A piece of the text does not stand for a byte. -/
  | digits
deriving DecidableEq

def ParseError.message : ParseError → String
  | size got => "Invalid Id size, expected 20, got " ++ toString got
  | digits => "Id is not a valid hex string"

def ofBytes (bs : Bytes) : Except ParseError NodeId :=
  match ofBytes? bs with
  | some id => .ok id
  | none => .error (.size bs.length)

def toText (a : NodeId) : String := Bytes.toHex a.bytes

def debugText (a : NodeId) : String := "Id(" ++ a.toText ++ ")"

/-- The byte a piece of two characters stands for: two digits, or a plus sign and one digit. -/
def pieceValue? (first second : UInt8) : Option UInt8 := do
  let lo ← Bytes.hexValue? second
  if first = 43 then
    return lo
  else
    let hi ← Bytes.hexValue? first
    return 16 * hi + lo

/-- The bytes that the pieces of a text stand for. -/
def piecesValue? : Bytes → Option Bytes
  | [] => some []
  | [_] => none
  | first :: second :: rest => do
    let b ← pieceValue? first second
    let bs ← piecesValue? rest
    return b :: bs

/-- Reads an id from a text, whose length counts in bytes of its UTF-8 form. -/
def ofText (s : String) : Except ParseError NodeId :=
  let bs := Bytes.ofText s
  if bs.length = 40 then
    match (piecesValue? bs).bind ofBytes? with
    | some id => .ok id
    | none => .error .digits
  else .error (.size (bs.length / 2))

end DhtStore.NodeId
