import DhtStore.Bytes

namespace DhtStore.Ed25519.Residue

/-- Residues stand for themselves, as numbers below the prime. -/
def prime : Nat := (1 <<< 255) - 19

def add (a b : Nat) : Nat := (a + b) % prime

def sub (a b : Nat) : Nat := (a + (prime - b)) % prime

def mul (a b : Nat) : Nat := (a * b) % prime

def neg (a : Nat) : Nat := sub 0 a

/-- The bits of a number, least significant first, for numbers of at most `n` bits. -/
def bits : (n : Nat) → Nat → List Bool
  | 0, _ => []
  | n + 1, v => (v % 2 == 1) :: bits n (v / 2)

/-- Powers, by squaring: the exponent has at most 255 bits. -/
def pow (a e : Nat) : Nat :=
  (bits 255 e).foldr (fun bit acc => if bit then mul (mul acc acc) a else mul acc acc) 1

def inv (a : Nat) : Nat := pow a (prime - 2)

/-- A square root of −1. -/
def rootOfMinusOne : Nat :=
  0x2B8324804FC1DF0B2B4D00993DFBD7A72F431806AD2FE478C4EE1B274A0EA0B0

/-- The even square root of `u / v`, if there is one; `v` is not zero. -/
def sqrtRatio? (u v : Nat) : Option Nat :=
  let v3 := mul (mul v v) v
  let v7 := mul (mul v3 v3) v
  let r := mul (mul u v3) (pow (mul u v7) ((prime - 5) / 8))
  let check := mul v (mul r r)
  let root? :=
    if check = u then some r
    else if check = neg u then some (mul r rootOfMinusOne)
    else none
  root?.map fun root => if root % 2 = 0 then root else neg root

end DhtStore.Ed25519.Residue
