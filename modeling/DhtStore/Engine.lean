import DhtStore.ClosestNodes

namespace DhtStore

/-- What a finished query tells the engine. -/
structure QueryReport where
  /-- The node that answered, with the token it issued; none if it issued none. -/
  responder : Option Node := none
  /-- Nodes closer to the target that the answer names. -/
  closer : List Node := []
deriving DecidableEq

structure LookupStats where
  /-- The number of queries begun. -/
  tried : Nat := 0
  /-- The number of answers with a token. -/
  responses : Nat := 0
deriving DecidableEq

/-- What an engine does once nothing is left to ask. -/
inductive AtEnd
  /-- It announces that the lookup stalled. -/
  | stall
  /-- It gives up its ability to query, which ends the stream of items just as well. -/
  | close
  /-- It keeps silent for ever. -/
  | hang
deriving DecidableEq

/-- A strategy of lookups, whose states are of type `S`. It takes in the nodes to begin with and what each query
    reports, and names nodes to query, which pass through a filter before they are. -/
structure Engine (S : Type) where
  start : NodeId → S
  seed : (Node → Bool) → List Node → S → S
  /-- The nodes to query now, while the given number of queries is in flight. -/
  next : Nat → S → List Node × S
  /-- Takes in the report on a node that was queried. -/
  settle : (Node → Bool) → Node → QueryReport → S → S
  atEnd : AtEnd
  /-- The nodes that the engine still asks when a deadline cuts the lookup short, until it notices.
      Their requests are dropped unsent. -/
  overrun : S → List Node := fun _ => []
  /-- The closest nodes that answered so far. -/
  closest : S → ClosestNodes
  stats : S → LookupStats
  /-- A bound on the number of queries of a lookup that begins with the given nodes. -/
  bound : List Node → Nat

end DhtStore
