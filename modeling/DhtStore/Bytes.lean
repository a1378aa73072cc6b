namespace DhtStore

abbrev Bytes := List UInt8

/-- A byte string of length `n`. -/
structure Octets (n : Nat) where
  bytes : Bytes
  length_bytes : bytes.length = n
deriving DecidableEq

namespace Octets

@[ext] theorem ext {n : Nat} {a b : Octets n} (h : a.bytes = b.bytes) : a = b := by
  cases a
  cases b
  cases h
  rfl

/-- The byte string itself, if it has the length asked for. -/
def ofBytes? {n : Nat} (bs : Bytes) : Option (Octets n) :=
  if h : bs.length = n then some ⟨bs, h⟩ else none

theorem ofBytes?_eq_some_iff {n : Nat} {bs : Bytes} {a : Octets n} :
    ofBytes? bs = some a ↔ bs = a.bytes := by
  unfold ofBytes?
  split
  · next hlength =>
    rw [Option.some_inj]
    exact ⟨fun heq => congrArg bytes heq, fun heq => ext heq⟩
  · next hlength =>
    constructor
    · intro heq
      cases heq
    · intro heq
      exact absurd (heq ▸ a.length_bytes) hlength

/-- The first `n` bytes, filled up with zeros. -/
def ofPadded {n : Nat} (bs : Bytes) : Octets n :=
  ⟨(bs ++ List.replicate n 0).take n, by simp⟩

def zero (n : Nat) : Octets n :=
  ⟨List.replicate n 0, List.length_replicate⟩

instance {n : Nat} : Inhabited (Octets n) := ⟨zero n⟩

def xor {n : Nat} (a b : Octets n) : Octets n :=
  ⟨List.zipWith (· ^^^ ·) a.bytes b.bytes, by simp [a.length_bytes, b.length_bytes]⟩

end Octets

namespace Bytes

/-- The number a byte string spells with its most significant byte first. -/
def toNatBE (bs : Bytes) : Nat :=
  bs.foldl (fun acc b => 256 * acc + b.toNat) 0

/-- The number a byte string spells with its least significant byte first. -/
def toNatLE : Bytes → Nat
  | [] => 0
  | b :: bs => b.toNat + 256 * toNatLE bs

/-- The `n` low bytes of a number, least significant first. -/
def ofNatLE : Nat → Nat → Bytes
  | 0, _ => []
  | n + 1, v => UInt8.ofNat v :: ofNatLE n (v / 256)

/-- The `n` low bytes of a number, most significant first. -/
def ofNatBE (n v : Nat) : Bytes :=
  (ofNatLE n v).reverse

@[simp] theorem length_ofNatLE (n v : Nat) : (ofNatLE n v).length = n := by
  induction n generalizing v with
  | zero => rfl
  | succ n ih => simp [ofNatLE, ih]

@[simp] theorem length_ofNatBE (n v : Nat) : (ofNatBE n v).length = n := by
  simp [ofNatBE]

/-- The first `count` pieces of `size` bytes. -/
def pieces (size : Nat) : (count : Nat) → Bytes → List Bytes
  | 0, _ => []
  | count + 1, bs => bs.take size :: pieces size count (bs.drop size)

/-- A text of ASCII characters as bytes. -/
def ofAscii (s : String) : Bytes :=
  s.toList.map fun c => UInt8.ofNat c.toNat

def ofText (s : String) : Bytes :=
  s.toUTF8.data.toList

def ofDecimal (n : Nat) : Bytes :=
  (Nat.toDigits 10 n).map fun c => UInt8.ofNat c.toNat

/-- The decimal digits of an integer, behind a minus sign if it is negative. -/
def ofDecimalInt (n : Int) : Bytes :=
  if n < 0 then 45 :: ofDecimal n.natAbs else ofDecimal n.natAbs

end Bytes

end DhtStore
