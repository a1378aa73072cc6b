import DhtStore.Item
import DhtStore.Json

namespace DhtStore

def NodeId.toJson (id : NodeId) : Json := .ofBytes id.bytes

def NodeId.ofJson? (j : Json) : Option NodeId := j.byteString?.bind NodeId.ofBytes?

namespace MutableItem

def toJson (item : MutableItem) : Json :=
  .object
    [("target", item.target.toJson),
      ("key", .ofBytes item.key.bytes),
      ("seq", .integer item.seq.toInt),
      ("value", .ofBytes item.value),
      ("signature", .ofBytes item.signature.bytes),
      ("salt", match item.salt with
        | none => .null
        | some salt => .ofBytes salt)]

/-- A salt, which may be null. -/
def saltOfJson? : Json → Option (Option Bytes)
  | .null => some none
  | j => j.byteArray?.map some

/-- An item from its parts in order. -/
def ofParts? (target key seq value signature salt : Json) : Option MutableItem := do
  let target ← NodeId.ofJson? target
  let key ← key.byteArray?.bind Octets.ofBytes?
  let seq ← seq.int64?
  let value ← value.byteArray?
  let signature ← signature.byteString?.bind Octets.ofBytes?
  let salt ← saltOfJson? salt
  return { target, key, seq, value, signature, salt }

/-- An item from an object that has its parts as fields, where the salt may be missing and fields of
    other names are of no account, or from an array of the six parts. -/
def ofJson? : Json → Option MutableItem
  | .array [target, key, seq, value, signature, salt] => ofParts? target key seq value signature salt
  | .object fields => do
    ofParts? (← Json.field? "target" fields) (← Json.field? "key" fields)
      (← Json.field? "seq" fields) (← Json.field? "value" fields)
      (← Json.field? "signature" fields) ((Json.field? "salt" fields).getD .null)
  | _ => none

end MutableItem

namespace Item

/-- An object whose one field is named for the kind of the item. -/
def toJson : Item → Json
  | immutable value => .object [("Immutable", .ofBytes value)]
  | mutable item => .object [("Mutable", item.toJson)]

def ofJson? : Json → Option Item
  | .object [(kind, j)] =>
    if kind = "Immutable" then j.byteString?.map immutable
    else if kind = "Mutable" then (MutableItem.ofJson? j).map mutable
    else none
  | _ => none

end Item

end DhtStore
