import DhtStore.Bytes

namespace DhtStore.Sha1

structure Words where
  a : UInt32
  b : UInt32
  c : UInt32
  d : UInt32
  e : UInt32

def Words.initial : Words :=
  ⟨0x67452301, 0xEFCDAB89, 0x98BADCFE, 0x10325476, 0xC3D2E1F0⟩

def Words.add (v w : Words) : Words :=
  ⟨v.a + w.a, v.b + w.b, v.c + w.c, v.d + w.d, v.e + w.e⟩

/-- Rotation to the left, for an amount between 1 and 31. -/
def rotateLeft (x : UInt32) (n : UInt32) : UInt32 :=
  (x <<< n) ||| (x >>> (32 - n))

def words : Bytes → List UInt32
  | a :: b :: c :: d :: rest =>
    ((a.toUInt32 <<< 24) ||| (b.toUInt32 <<< 16) ||| (c.toUInt32 <<< 8) ||| d.toUInt32) :: words rest
  | _ => []

/-- Appends `count` words to a message schedule, which is kept with its latest word first. -/
def extend : (count : Nat) → List UInt32 → List UInt32
  | 0, ws => ws
  | count + 1, ws =>
    let next := ws.getD 2 0 ^^^ ws.getD 7 0 ^^^ ws.getD 13 0 ^^^ ws.getD 15 0
    extend count (rotateLeft next 1 :: ws)

/-- The eighty words of a block's message schedule. -/
def schedule (block : Bytes) : List UInt32 :=
  (extend 64 (words block).reverse).reverse

/-- The mixing function and constant of round `t`. -/
def mix (t : Nat) (b c d : UInt32) : UInt32 :=
  if t < 20 then ((b &&& c) ||| (~~~b &&& d)) + 0x5A827999
  else if t < 40 then (b ^^^ c ^^^ d) + 0x6ED9EBA1
  else if t < 60 then ((b &&& c) ||| (b &&& d) ||| (c &&& d)) + 0x8F1BBCDC
  else (b ^^^ c ^^^ d) + 0xCA62C1D6

def round (v : Words) (t : Nat) (w : UInt32) : Words :=
  ⟨rotateLeft v.a 5 + mix t v.b v.c v.d + v.e + w, v.a, rotateLeft v.b 30, v.c, v.d⟩

/-- Rounds from number `t` on, one for each word. -/
def rounds : Words → Nat → List UInt32 → Words
  | v, _, [] => v
  | v, t, w :: ws => rounds (round v t w) (t + 1) ws

def compress (v : Words) (block : Bytes) : Words :=
  v.add (rounds v 0 (schedule block))

/-- The message, a one bit, zeros, and the message's length in bits as 8 bytes, filling whole blocks. -/
def pad (message : Bytes) : Bytes :=
  message ++ 0x80 :: List.replicate ((119 - message.length % 64) % 64) 0
    ++ Bytes.ofNatBE 8 (8 * message.length)

def Words.toBytes (v : Words) : Bytes :=
  [v.a, v.b, v.c, v.d, v.e].flatMap fun w => Bytes.ofNatBE 4 w.toNat

def digest (message : Bytes) : Octets 20 :=
  let padded := pad message
  let final := (Bytes.pieces 64 (padded.length / 64) padded).foldl compress Words.initial
  ⟨final.toBytes, by simp [Words.toBytes]⟩

end DhtStore.Sha1
