import DhtStore.Ed25519.Residue

namespace DhtStore.Ed25519

open Residue

def curveConstant : Nat :=
  0x52036CEE2B6FFE738CC740797779E89800700A4D4141D8AB75EB4DCA135978A3

/-- A point of the twisted Edwards curve −x² + y² = 1 + d·x²·y² in extended coordinates: x = X/Z, y = Y/Z and
    x·y = T/Z. -/
structure Point where
  X : Nat
  Y : Nat
  Z : Nat
  T : Nat

namespace Point

def identity : Point := ⟨0, 1, 1, 0⟩

/-- The generator of the signing group. -/
def base : Point :=
  ⟨0x216936D3CD6E53FEC0A4E231FDD6DC5C692CC7609525A7B2C9562D608F25D51A,
    0x6666666666666666666666666666666666666666666666666666666666666658, 1,
    0x67875F0FD78B766566EA4E8E64ABE37D20F09F80775152F56DDE8AB3A5B7DDA3⟩

def add (p q : Point) : Point :=
  let a := mul (sub p.Y p.X) (sub q.Y q.X)
  let b := mul (Residue.add p.Y p.X) (Residue.add q.Y q.X)
  let c := mul (mul (Residue.add p.T p.T) curveConstant) q.T
  let d := mul (Residue.add p.Z p.Z) q.Z
  let e := sub b a
  let f := sub d c
  let g := Residue.add d c
  let h := Residue.add b a
  ⟨mul e f, mul g h, mul f g, mul e h⟩

def neg (p : Point) : Point :=
  ⟨Residue.neg p.X, p.Y, p.Z, Residue.neg p.T⟩

/-- The `n`-fold sum of a point, by doubling; `n` has at most 256 bits. -/
def smul (n : Nat) (p : Point) : Point :=
  (bits 256 n).foldr (fun bit acc => if bit then (acc.add acc).add p else acc.add acc) identity

/-- The sum of the `m`-fold of one point and the `n`-fold of another, in one run of doublings. -/
def smulAdd (m : Nat) (p : Point) (n : Nat) (q : Point) : Point :=
  let sum := p.add q
  ((bits 256 m).zip (bits 256 n)).foldr
    (fun bit acc =>
      let acc := acc.add acc
      match bit with
      | (false, false) => acc
      | (true, false) => acc.add p
      | (false, true) => acc.add q
      | (true, true) => acc.add sum)
    identity

/-- The 32 byte form: y, and the lowest bit of x on top. -/
def toBytes (p : Point) : Bytes :=
  let scale := inv p.Z
  let x := mul p.X scale
  let y := mul p.Y scale
  Bytes.ofNatLE 32 (y + ((x % 2) <<< 255))

/-- The point a 32 byte form stands for. The number y is taken modulo the prime, and the bit on top
    is ignored where x is zero. -/
def ofBytes? (bs : Bytes) : Option Point :=
  if bs.length = 32 then
    let encoded := Bytes.toNatLE bs
    let y := encoded % (1 <<< 255) % prime
    let ySquared := mul y y
    (sqrtRatio? (sub ySquared 1) (Residue.add (mul curveConstant ySquared) 1)).map fun root =>
      let x := if encoded >>> 255 = 1 then Residue.neg root else root
      ⟨x, y, 1, mul x y⟩
  else none

end Point

end DhtStore.Ed25519
