import DhtStore.Address.Text
import DhtStore.Item
import DhtStore.Node

namespace DhtStore

/-- Asks a node for the item at a target, and for nodes close to it. -/
structure GetRequest where
  target : NodeId
  /-- Asks for mutable items with a higher sequence number only. -/
  seq : Option Seq
deriving DecidableEq

/-- Asks a node to store an item. -/
structure PutRequest where
  token : WriteToken
  item : Item
deriving DecidableEq

/-- A node's answer to a get. Nothing in it can be trusted. -/
structure GetReply where
  responder : Option NodeId := none
  token : Option WriteToken := none
  /-- Nodes that the responder claims to be close to the target. -/
  nodes : List Node := []
  value : Option Bytes := none
  key : Option PublicKey := none
  seq : Option Seq := none
  signature : Option Signature := none
deriving DecidableEq

/-- An error that a node answers with. -/
structure NodeError where
  code : Int
  description : String
deriving DecidableEq

/-- How a single request to a single node fails. -/
inductive RequestError
  | timeout
  | unreachable (address : Address)
  | refused (error : NodeError)
deriving DecidableEq

def RequestError.message : RequestError → String
  | timeout => "Request timed out"
  | unreachable address => "Node " ++ address.toText ++ " is unreachable"
  | refused error => "Error response " ++ toString error.code ++ ": " ++ error.description

end DhtStore
