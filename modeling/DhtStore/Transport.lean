import DhtStore.Lifetime
import DhtStore.Message

namespace DhtStore

/-- The fate of a request: an answer some time after it was sent, or none at all. -/
inductive Delivery (α : Type)
  | after (delay : Nat) (answer : Except RequestError α)
  | never

/-- A network whose state requests may change as they are sent. A call of `get` or `put` only makes a request: it is
    sent when the call is polled for the first time, and abandoned unsent if the call is dropped before. -/
structure Transport (σ : Type) where
  get : Instant → Address → GetRequest → σ → Delivery GetReply × σ
  put : Instant → Address → PutRequest → σ → Delivery Unit × σ
  /-- The nodes that a lookup begins with. -/
  startingNodes : σ → List Node
  /-- Whether a lookup may ask a node. -/
  accepts : Node → Bool := fun _ => true

end DhtStore
