import DhtStore.Transport

namespace DhtStore

/-- A node and its reactions to gets and to puts, turn by turn. -/
structure ScriptedNode where
  address : Address
  gets : List (Delivery GetReply) := []
  puts : List (Delivery Unit) := []

structure ScriptedNetwork where
  nodes : List ScriptedNode
  /-- The nodes that lookups begin with. -/
  start : List Node
  /-- The addresses that lookups must not ask. -/
  blocked : List Address := []

namespace ScriptedNetwork

/-- The reaction of a turn; the last one goes on for ever. A node without any cannot be reached. -/
def reaction {α : Type} (address : Address) (turn : Nat) (script : List (Delivery α)) : Delivery α :=
  (script[min turn (script.length - 1)]?).getD (.after 0 (.error (.unreachable address)))

/-- The script of the node at an address, empty where there is none. Of several nodes at one address
    the last listed acts. -/
def script {α : Type} (n : ScriptedNetwork) (kind : ScriptedNode → List (Delivery α))
    (address : Address) : List (Delivery α) :=
  ((n.nodes.reverse.find? (·.address = address)).map kind).getD []

/-- The network as it acts in one turn. -/
def transport (n : ScriptedNetwork) (turn : Nat) : Transport Unit where
  get _ address _ _ := (reaction address turn (n.script ScriptedNode.gets address), ())
  put _ address _ _ := (reaction address turn (n.script ScriptedNode.puts address), ())
  startingNodes _ := n.start
  accepts node := !n.blocked.contains node.address

end ScriptedNetwork

end DhtStore
