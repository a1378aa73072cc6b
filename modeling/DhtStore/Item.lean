import DhtStore.Ed25519.Signature
import DhtStore.Hash.Sha1
import DhtStore.NodeId

namespace DhtStore

abbrev PublicKey := Octets 32

abbrev Signature := Octets 64

/-- A secret from which a signing key is derived. -/
abbrev Seed := Octets 32

abbrev Seq := Int64

/-- Adds to a sequence number, staying at the end of the range instead of leaving it. -/
def Seq.plus (seq : Seq) (n : Int) : Seq := Int64.ofIntClamp (seq.toInt + n)

theorem Seq.toInt_plus_one {seq : Seq} (hbelow : seq < Int64.maxValue) :
    (seq.plus 1).toInt = seq.toInt + 1 := by
  have hlow := seq.le_toInt
  have hroom := Int64.lt_iff_toInt_lt.1 hbelow
  refine Int64.toInt_ofIntClamp ?_ ?_
  · rw [Int64.toInt_minValue]
    omega
  · omega

/-- What is hashed for the target of an immutable value: its length, a colon and the value. -/
def immutableEncoding (value : Bytes) : Bytes :=
  Bytes.ofDecimal value.length ++ 58 :: value

def immutableTarget (value : Bytes) : NodeId := ⟨Sha1.digest (immutableEncoding value)⟩

/-- What is hashed for the target of mutable items: the key and, behind it, the salt. -/
def mutableEncoding (key : Bytes) (salt : Option Bytes) : Bytes := key ++ salt.getD []

/-- The target of all items of a key and a salt. -/
def mutableTarget (key : Bytes) (salt : Option Bytes) : NodeId :=
  ⟨Sha1.digest (mutableEncoding key salt)⟩

/-- The bytes an author signs: salt, if there is one, sequence number and value. -/
def signable (seq : Seq) (value : Bytes) (salt : Option Bytes) : Bytes :=
  let salted :=
    match salt with
    | none => []
    | some salt => Bytes.ofAscii "4:salt" ++ Bytes.ofDecimal salt.length ++ 58 :: salt
  salted ++ Bytes.ofAscii "3:seqi" ++ Bytes.ofDecimalInt seq.toInt ++ Bytes.ofAscii "e1:v"
    ++ Bytes.ofDecimal value.length ++ 58 :: value

/-- A signed value. Nothing in the type says that the signature verifies. -/
structure MutableItem where
  target : NodeId
  key : PublicKey
  seq : Seq
  value : Bytes
  signature : Signature
  salt : Option Bytes
deriving DecidableEq

/-- Why fields from a stranger make no mutable item. -/
inductive SignatureError
  | publicKey
  | signature
deriving DecidableEq

def SignatureError.message : SignatureError → String
  | publicKey => "Invalid mutable item public key"
  | signature => "Invalid mutable item signature"

namespace MutableItem

/-- An item whose signature is taken on trust. -/
def ofSigned (key : PublicKey) (signature : Signature) (value : Bytes) (seq : Seq)
    (salt : Option Bytes) : MutableItem :=
  { target := mutableTarget key.bytes salt, key, seq, value, signature, salt }

def sign (seed : Seed) (value : Bytes) (seq : Seq) (salt : Option Bytes) : MutableItem :=
  ofSigned (Ed25519.publicKey seed) (Ed25519.sign seed (signable seq value salt)) value seq salt

/-- Builds an item from fields of any length after verifying the signature. That the target belongs
    to the key is not checked. -/
def verified (target : NodeId) (key value : Bytes) (seq : Seq) (signature : Bytes)
    (salt : Option Bytes) : Except SignatureError MutableItem :=
  match Octets.ofBytes? key, Octets.ofBytes? signature with
  | none, _ => .error .publicKey
  | some key, signature? =>
    if !Ed25519.isPublicKey key.bytes then .error .publicKey
    else
      match signature? with
      | none => .error .signature
      | some signature =>
        if Ed25519.verifies key.bytes (signable seq value salt) signature.bytes then
          .ok { target, key, seq, value, signature, salt }
        else .error .signature

end MutableItem

/-- A value stored at the hash of its content, or one that its author signs and may replace by one with a higher
    sequence number, stored at the hash of the author's key and a salt. -/
inductive Item
  | immutable (value : Bytes)
  | mutable (item : MutableItem)
deriving DecidableEq

namespace Item

def target : Item → NodeId
  | immutable value => immutableTarget value
  | mutable item => item.target

def value : Item → Bytes
  | immutable value => value
  | mutable item => item.value

/-- The sequence number, which only mutable items have. -/
def seq? : Item → Option Seq
  | immutable _ => none
  | mutable item => some item.seq

def isMutable : Item → Bool
  | immutable _ => false
  | mutable _ => true

end Item

end DhtStore
