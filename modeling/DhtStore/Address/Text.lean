import DhtStore.Address

namespace DhtStore

namespace IpAddress

/-- The sixteen bit groups of a byte string. -/
def groups : Bytes → List Nat
  | hi :: lo :: rest => (256 * hi.toNat + lo.toNat) :: groups rest
  | _ => []

def dotted (bs : Bytes) : String :=
  ".".intercalate (bs.map fun b => toString b.toNat)

def hexGroups (gs : List Nat) : String :=
  ":".intercalate (gs.map fun g => String.ofList (Nat.toDigits 16 g))

/-- The number of zeros a list starts with. -/
def zeroRun (gs : List Nat) : Nat :=
  (gs.takeWhile (· == 0)).length

/-- The position and length of the first longest run of zeros, positions counted from `i`. -/
def longestZeroRun : Nat → List Nat → Nat × Nat
  | i, [] => (i, 0)
  | i, g :: gs =>
    let here := zeroRun (g :: gs)
    let later := longestZeroRun (i + 1) gs
    if later.2 ≤ here then (i, here) else later

/-- The canonical form: lower case, no leading zeros of a group, and the first longest run of two or more zero groups
    elided. An address of version 4 that is mapped into version 6 keeps its dotted form. -/
def canonicalV6 (bs : Bytes) : String :=
  if bs.take 12 = List.replicate 10 0 ++ [255, 255] then "::ffff:" ++ dotted (bs.drop 12)
  else
    let gs := groups bs
    let (start, length) := longestZeroRun 0 gs
    if 2 ≤ length then
      hexGroups (gs.take start) ++ "::" ++ hexGroups (gs.drop (start + length))
    else hexGroups gs

/-- A number below `bound` in decimal digits. -/
def decimal? (bound : Nat) (cs : List Char) : Option Nat :=
  if cs.isEmpty || !cs.all Char.isDigit then none
  else
    let n := cs.foldl (fun acc c => 10 * acc + (c.toNat - 48)) 0
    if n < bound then some n else none

/-- A byte in decimal digits, without leading zeros. -/
def decimalByte? (cs : List Char) : Option UInt8 :=
  if 1 < cs.length && cs.head? == some '0' then none
  else (decimal? UInt8.size cs).map UInt8.ofNat

/-- Splits a text at each occurrence of a character. -/
def splitAt (sep : Char) : List Char → List (List Char)
  | [] => [[]]
  | c :: cs =>
    match splitAt sep cs with
    | [] => [[c]]
    | part :: parts => if c = sep then [] :: part :: parts else (c :: part) :: parts

/-- The four bytes of a dotted address. -/
def ofDotted? (cs : List Char) : Option Bytes := do
  let bytes ← (splitAt '.' cs).mapM decimalByte?
  if bytes.length = 4 then return bytes else none

/-- A group of one to four hexadecimal digits, as two bytes. -/
def ofHexGroup? (cs : List Char) : Option Bytes :=
  let value? (c : Char) : Option Nat :=
    if c.isDigit then some (c.toNat - 48)
    else if 'a' ≤ c && c ≤ 'f' then some (c.toNat - 87)
    else if 'A' ≤ c && c ≤ 'F' then some (c.toNat - 55)
    else none
  if cs.isEmpty || 4 < cs.length then none
  else (cs.mapM value?).map fun ds => Bytes.ofNatBE 2 (ds.foldl (fun acc d => 16 * acc + d) 0)

/-- The bytes of groups, the last of which may be a dotted address where `tail` holds. -/
def ofGroups? (tail : Bool) : List (List Char) → Option Bytes
  | [] => some []
  | [last] => if tail && last.contains '.' then ofDotted? last else ofHexGroup? last
  | g :: gs => do
    let bytes ← ofHexGroup? g
    let rest ← ofGroups? tail gs
    return bytes ++ rest

/-- Splits a text at its first double colon. -/
def splitElision : List Char → Option (List Char × List Char)
  | ':' :: ':' :: rest => some ([], rest)
  | c :: cs => (splitElision cs).map fun (before, after) => (c :: before, after)
  | [] => none

/-- The groups of a text, none if it is empty. -/
def groupTexts (cs : List Char) : List (List Char) :=
  if cs.isEmpty then [] else splitAt ':' cs

/-- The 16 bytes of an address in version 6, in canonical form or not. -/
def ofV6Text? (cs : List Char) : Option Bytes :=
  match splitElision cs with
  | none => ofGroups? true (splitAt ':' cs)
  | some (before, after) => do
    let front ← ofGroups? false (groupTexts before)
    let back ← ofGroups? true (groupTexts after)
    if front.length + back.length ≤ 14 then
      return front ++ List.replicate (16 - front.length - back.length) 0 ++ back
    else none

end IpAddress

namespace Address

/-- The text of a zone behind a host's address: nothing for none. -/
def zoneText (zone : UInt32) : String :=
  if zone = 0 then "" else "%" ++ toString zone.toNat

def toText : Address → String
  | v4 host port => IpAddress.dotted host.bytes ++ ":" ++ toString port.toNat
  | v6 host zone port =>
    "[" ++ IpAddress.canonicalV6 host.bytes ++ zoneText zone ++ "]:" ++ toString port.toNat

/-- The port that decimal digits name. -/
def port? (cs : List Char) : Option UInt16 :=
  (IpAddress.decimal? UInt16.size cs).map UInt16.ofNat

/-- The zone that a text behind a host's address names; no text names none. -/
def zone? : List Char → Option UInt32
  | [] => some 0
  | '%' :: digits => (IpAddress.decimal? UInt32.size digits).map UInt32.ofNat
  | _ => none

def ofText? (s : String) : Option Address :=
  match s.toList with
  | '[' :: rest => do
    let within := rest.takeWhile (· != ']')
    match rest.dropWhile (· != ']') with
    | ']' :: ':' :: digits =>
      let host ← (IpAddress.ofV6Text? (within.takeWhile (· != '%'))).bind Octets.ofBytes?
      let zone ← zone? (within.dropWhile (· != '%'))
      return v6 host zone (← port? digits)
    | _ => none
  | cs => do
    match cs.dropWhile (· != ':') with
    | ':' :: digits =>
      let host ← (IpAddress.ofDotted? (cs.takeWhile (· != ':'))).bind Octets.ofBytes?
      return v4 host (← port? digits)
    | _ => none

end Address

end DhtStore
