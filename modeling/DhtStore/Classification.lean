import DhtStore.Message

namespace DhtStore

inductive ReplyFault
  | missingMutableFields
  | targetMismatch
  | unverified (error : SignatureError)
deriving DecidableEq

def ReplyFault.message : ReplyFault → String
  | missingMutableFields => "Value hash doesn't match the target, and no public key was returned"
  | targetMismatch => "Neither the value nor the public key and salt hash to the target"
  | unverified error => error.message

inductive Classification
  | immutable (value : Bytes)
  | mutable (item : MutableItem)
  | invalid (fault : ReplyFault)
  | empty
deriving DecidableEq

def Classification.item? : Classification → Option Item
  | immutable value => some (.immutable value)
  | mutable item => some (.mutable item)
  | invalid _ => none
  | empty => none

/-- Classifies the value of a reply by its hash, and else by key, salt and signature. -/
def GetReply.classify (reply : GetReply) (target : NodeId) (salt : Option Bytes) :
    Classification :=
  match reply.value with
  | none => .empty
  | some value =>
    if immutableTarget value = target then .immutable value
    else
      match reply.key, reply.seq, reply.signature with
      | some key, some seq, some signature =>
        if mutableTarget key.bytes salt ≠ target then .invalid .targetMismatch
        else
          match MutableItem.verified target key.bytes value seq signature.bytes salt with
          | .ok item => .mutable item
          | .error error => .invalid (.unverified error)
      | _, _, _ => .invalid .missingMutableFields

end DhtStore
