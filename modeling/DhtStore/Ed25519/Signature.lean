import DhtStore.Ed25519.Point
import DhtStore.Hash.Sha512

namespace DhtStore.Ed25519

/-- The order of the signing group. -/
def groupOrder : Nat :=
  (1 <<< 252) + 0x14DEF9DEA2F79CD65812631A5CF5D3ED

/-- The number a 64 byte hash of some bytes spells, modulo the group's order. -/
def hashToScalar (bs : Bytes) : Nat :=
  Bytes.toNatLE (Sha512.digest bs).bytes % groupOrder

/-- The secret number of a seed: the low half of its hash with five bits set or cleared. -/
def secretScalar (seed : Octets 32) : Nat :=
  let low := Bytes.toNatLE ((Sha512.digest seed.bytes).bytes.take 32)
  (1 <<< 254) + low % (1 <<< 254) / 8 * 8

theorem length_toBytes (p : Point) : p.toBytes.length = 32 := by
  simp [Point.toBytes]

def publicKey (seed : Octets 32) : Octets 32 :=
  ⟨(Point.base.smul (secretScalar seed)).toBytes, length_toBytes _⟩

def sign (seed : Octets 32) (message : Bytes) : Octets 64 :=
  let nonce := hashToScalar ((Sha512.digest seed.bytes).bytes.drop 32 ++ message)
  let commitment := (Point.base.smul nonce).toBytes
  let challenge := hashToScalar (commitment ++ (publicKey seed).bytes ++ message)
  let response := (nonce + challenge * secretScalar seed) % groupOrder
  ⟨commitment ++ Bytes.ofNatLE 32 response, by simp [commitment, length_toBytes]⟩

/-- Whether some bytes are a public key: the form of a point. -/
def isPublicKey (key : Bytes) : Bool :=
  (Point.ofBytes? key).isSome

/-- Whether a signature of a message verifies under a public key, both given as bytes of any length. The point
    S·B − k·A is compared by its bytes, so that no key of small order is refused and no second encoding accepted. -/
def verifies (key : Bytes) (message signature : Bytes) : Bool :=
  match Point.ofBytes? key with
  | none => false
  | some a =>
    let commitment := signature.take 32
    let response := Bytes.toNatLE (signature.drop 32)
    let challenge := hashToScalar (commitment ++ key ++ message)
    signature.length == 64 && decide (response < groupOrder)
      && (Point.smulAdd response Point.base challenge a.neg).toBytes == commitment

end DhtStore.Ed25519
