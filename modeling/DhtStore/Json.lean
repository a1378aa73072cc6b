import DhtStore.Bytes

namespace DhtStore

/-- A value of the data format JSON. -/
inductive Json
  | null
  | bool (b : Bool)
  | integer (n : Int)
  /-- A number written with a fraction; nothing here has such a number for a part. -/
  | fraction
  | text (s : String)
  | array (elements : List Json)
  | object (fields : List (String × Json))
deriving Inhabited

namespace Json

def ofBytes (bs : Bytes) : Json := array (bs.map fun b => integer b.toNat)

def byte? : Json → Option UInt8
  | integer n => if 0 ≤ n ∧ n < 256 then some (UInt8.ofNat n.toNat) else none
  | _ => none

def byteArray? : Json → Option Bytes
  | array elements => elements.mapM byte?
  | _ => none

/-- A byte string from an array of numbers, or from a text by its UTF-8 form. -/
def byteString? : Json → Option Bytes
  | text s => some (Bytes.ofText s)
  | j => j.byteArray?

/-- A number of 64 bits with a sign. -/
def int64? : Json → Option Int64
  | integer n => if (Int64.ofInt n).toInt = n then some (Int64.ofInt n) else none
  | _ => none

def field? (name : String) (fields : List (String × Json)) : Option Json :=
  (fields.find? (·.1 = name)).map Prod.snd

end Json

end DhtStore
