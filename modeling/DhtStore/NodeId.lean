import DhtStore.Bytes

namespace DhtStore

/-- A point of the key space: the id of a node, or the target a value is stored at. -/
structure NodeId where
  octets : Octets 20
deriving DecidableEq, Inhabited

namespace NodeId

def size : Nat := 20

def bytes (a : NodeId) : Bytes := a.octets.bytes

theorem length_bytes (a : NodeId) : a.bytes.length = 20 := a.octets.length_bytes

@[ext] theorem ext {a b : NodeId} (h : a.bytes = b.bytes) : a = b := by
  cases a
  cases b
  exact congrArg NodeId.mk (Octets.ext h)

/-- The id with the given bytes, if there are 20 of them. -/
def ofBytes? (bs : Bytes) : Option NodeId :=
  (Octets.ofBytes? bs).map NodeId.mk

theorem ofBytes?_eq_some_iff {bs : Bytes} {a : NodeId} : ofBytes? bs = some a ↔ bs = a.bytes := by
  unfold ofBytes?
  rw [Option.map_eq_some_iff]
  constructor
  · rintro ⟨octets, hoctets, rfl⟩
    exact Octets.ofBytes?_eq_some_iff.1 hoctets
  · intro heq
    exact ⟨a.octets, Octets.ofBytes?_eq_some_iff.2 heq, rfl⟩

/-- The number an id spells, most significant byte first. -/
def toNat (a : NodeId) : Nat := Bytes.toNatBE a.bytes

/-- The distance of two ids. The order of ids, bytewise, is that of distances as numbers. -/
def xor (a b : NodeId) : NodeId := ⟨a.octets.xor b.octets⟩

instance : LT NodeId := ⟨fun a b => a.bytes < b.bytes⟩

instance (a b : NodeId) : Decidable (a < b) :=
  inferInstanceAs (Decidable (a.bytes < b.bytes))

instance : Ord NodeId := ⟨fun a b => if a < b then .lt else if a = b then .eq else .gt⟩

/-- The number of zero bits before the first bit that is set. -/
def leadingZeros : Bytes → Nat
  | [] => 0
  | b :: bs => if b = 0 then 8 + leadingZeros bs else 7 - b.toNat.log2

/-- The simplified distance of two ids: the number of bits from the first that differs on. -/
def distance (a b : NodeId) : Nat := 160 - leadingZeros (a.xor b).bytes

/-- A number as a word of `w` bits, if such a word can hold it. -/
def word? (w : Nat) (n : Int) : Option (BitVec w) :=
  if 0 ≤ n ∧ n < (1 <<< w : Nat) then some (BitVec.ofInt w n) else none

/-- The number of bits of an id. -/
def furthest? : Option (BitVec 8) := do
  let octets ← word? 8 size
  word? 8 (octets.toNat * 8)

/-- The zeros in front of the first bit that is set, if that bit is in the byte at `index`. They are counted in words
    of 32 bits, and the count is cut down to 8 bits. -/
def zerosUpTo? (index : Nat) (b : UInt8) : Option (BitVec 8) := do
  let octets ← word? 32 index
  let before ← word? 32 (octets.toNat * 8)
  let zeros ← word? 32 (before.toNat + b.toBitVec.clz.toNat)
  word? 8 zeros.toNat

/-- The zeros at the front of an id, of which the bytes before `index` are known to be zero. -/
def leadingZerosFrom? (index : Nat) : Bytes → Option (BitVec 8)
  | [] => furthest?
  | b :: bs => if b ≠ 0 then zerosUpTo? index b else leadingZerosFrom? (index + 1) bs

/-- The simplified distance in words of fixed width, unless a result on the way does not fit its word. -/
def distanceInWords? (a b : NodeId) : Option (BitVec 8) := do
  let furthest ← furthest?
  let zeros ← leadingZerosFrom? 0 (a.xor b).bytes
  word? 8 (furthest.toNat - zeros.toNat)

/-- Whether an id is closer to a target than another. -/
def CloserTo (target a b : NodeId) : Prop := a.xor target < b.xor target

instance (target a b : NodeId) : Decidable (CloserTo target a b) :=
  inferInstanceAs (Decidable (a.xor target < b.xor target))

end NodeId

end DhtStore
