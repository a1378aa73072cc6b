import DhtStore.Lifetime
import DhtStore.Message

namespace DhtStore

inductive QueryEnd
  /-- The call was over before the query. -/
  | interrupted
  | timedOut
  | failed (error : RequestError)
  /-- A reply; one that comes at the very instant of the timeout is not in time. -/
  | replied (reply : GetReply) (inTime : Bool)
deriving DecidableEq

inductive Event
  | asked (time : Instant) (node : Node) (request : GetRequest)
  /-- A get was called for, but dropped before its request was sent. -/
  | unasked (time : Instant) (node : Node) (request : GetRequest)
  | settled (time : Instant) (node : Node) (result : QueryEnd)
  /-- The reader takes a valid item that a node gave. -/
  | read (time : Instant) (node : Node) (item : Item)
  /-- The item to put is built from the sequence number found. -/
  | built (time : Instant) (seen : Seq) (item : Item)
  | wrote (time : Instant) (address : Address) (request : PutRequest)
  /-- A put was called for, but dropped before its request was sent. -/
  | unwritten (time : Instant) (address : Address) (request : PutRequest)
deriving DecidableEq

namespace Event

/-- A call of get, be its request sent or not. -/
def get? : Event → Option (Instant × Address × GetRequest)
  | asked time node request | unasked time node request => some (time, node.address, request)
  | _ => none

/-- A call of put, be its request sent or not. -/
def put? : Event → Option (Instant × Address × PutRequest)
  | wrote time address request | unwritten time address request => some (time, address, request)
  | _ => none

/-- Whether a request is sent. -/
def isSending : Event → Bool
  | asked .. | wrote .. => true
  | _ => false

def built? : Event → Option (Seq × Item)
  | built _ seen item => some (seen, item)
  | _ => none

end Event

/-- The events of a call, in the order in which they happen. -/
abbrev History := List Event

namespace History

/-- The calls of get. -/
def gets (h : History) : List (Instant × Address × GetRequest) := h.filterMap Event.get?

/-- The calls of put. -/
def puts (h : History) : List (Instant × Address × PutRequest) := h.filterMap Event.put?

@[simp] theorem gets_append (h later : History) : gets (h ++ later) = gets h ++ gets later :=
  List.filterMap_append

/-- The events by which a request is sent. -/
def sent (h : History) : History := h.filter Event.isSending

@[simp] theorem sent_append (h later : History) : sent (h ++ later) = sent h ++ sent later :=
  List.filter_append ..

/-- The item that was built, with the sequence number it was built from. -/
def built? (h : History) : Option (Seq × Item) := h.findSome? Event.built?

end History

end DhtStore
