import DhtStore.Bytes

namespace DhtStore.Bytes

/-- The lower case digit of a number below sixteen. -/
def hexDigit (n : Nat) : Char :=
  if n < 10 then Char.ofNat (48 + n) else Char.ofNat (87 + n)

/-- The value of an ASCII digit, of either case, given by its code. -/
def hexValue? (b : UInt8) : Option UInt8 :=
  if 48 ≤ b ∧ b ≤ 57 then some (b - 48)
  else if 97 ≤ b ∧ b ≤ 102 then some (b - 87)
  else if 65 ≤ b ∧ b ≤ 70 then some (b - 55)
  else none

def hexPair (b : UInt8) : List Char :=
  [hexDigit (b.toNat / 16), hexDigit (b.toNat % 16)]

def toHex (bs : Bytes) : String :=
  String.ofList (bs.flatMap hexPair)

/-- Reads pairs of digits; a text of any other form is refused. -/
def ofHexDigits? : Bytes → Option Bytes
  | [] => some []
  | [_] => none
  | hi :: lo :: rest => do
    let hi ← hexValue? hi
    let lo ← hexValue? lo
    let rest ← ofHexDigits? rest
    return (16 * hi + lo) :: rest

def ofHex? (s : String) : Option Bytes :=
  ofHexDigits? (ofText s)

end DhtStore.Bytes
