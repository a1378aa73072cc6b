import DhtStore.Address
import DhtStore.Bytes.Hex
import DhtStore.NodeId

namespace DhtStore

/-- A credential that a node issues in its answer to a get, and expects back with a put. -/
structure WriteToken where
  bytes : Bytes
deriving DecidableEq

def WriteToken.debugText (t : WriteToken) : String :=
  "WriteToken(" ++ Bytes.toHex t.bytes ++ ")"

/-- A node found by a lookup; one without a token cannot be written to. -/
structure Node where
  id : NodeId
  address : Address
  token : Option WriteToken := none
deriving DecidableEq

namespace Node

def isWritable (n : Node) : Bool := n.token.isSome

end Node

end DhtStore
