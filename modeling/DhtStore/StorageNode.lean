import DhtStore.Message
import DhtStore.RecencyCache
import DhtStore.TokenSecrets

namespace DhtStore

inductive Behavior
  | honest
  /-- It never answers. -/
  | unresponsive
  /-- It cannot be reached. -/
  | offline
  /-- It answers gets with tampered values. -/
  | corrupt
  /-- It refuses every put. -/
  | rejectWrites
  /-- It never answers a put. -/
  | hangWrites
deriving DecidableEq

def Behavior.all : List Behavior :=
  [honest, unresponsive, offline, corrupt, rejectWrites, hangWrites]

def Behavior.name : Behavior → String
  | honest => "Honest"
  | unresponsive => "Unresponsive"
  | offline => "Offline"
  | corrupt => "Corrupt"
  | rejectWrites => "RejectWrites"
  | hangWrites => "HangWrites"

inductive Refusal
  | unwilling
  | badToken
  | valueTooBig
  | saltTooBig
  | badSignature
  /-- The item held has a higher sequence number, or the same one and another value. -/
  | outdated
deriving DecidableEq

def Refusal.error : Refusal → NodeError
  | unwilling => ⟨201, "Generic Error"⟩
  | badToken => ⟨203, "Bad token"⟩
  | valueTooBig => ⟨205, "Message (v field) too big."⟩
  | saltTooBig => ⟨207, "salt (salt field) too big."⟩
  | badSignature => ⟨206, "Invalid signature"⟩
  | outdated => ⟨302, "Sequence number less than current."⟩

/-- A node with what it holds. -/
structure StorageNode where
  id : NodeId
  address : Address
  behavior : Behavior := .honest
  secrets : TokenSecrets
  immutables : RecencyCache NodeId Bytes
  mutables : RecencyCache NodeId MutableItem

namespace StorageNode

/-- The most values of each kind that a node holds. -/
def maxValues : Nat := 1000

/-- The greatest size of a value that a node agrees to hold. -/
def maxValueSize : Nat := 1000

/-- The greatest size of a salt that a node agrees to hold. -/
def maxSaltSize : Nat := 64

/-- An honest node that holds nothing. -/
def create (id : NodeId) (address : Address) (secrets : TokenSecrets) : StorageNode :=
  { id, address, secrets, immutables := { capacity := maxValues }
    mutables := { capacity := maxValues } }

def node (n : StorageNode) : Node := { id := n.id, address := n.address }

def useImmutable (n : StorageNode) (target : NodeId) : Option Bytes × StorageNode :=
  let (found, immutables) := n.immutables.use target
  (found, { n with immutables })

def useMutable (n : StorageNode) (target : NodeId) : Option MutableItem × StorageNode :=
  let (found, mutables) := n.mutables.use target
  (found, { n with mutables })

/-- The item held at a target, which is thereby used; an immutable one comes first. -/
def item (n : StorageNode) (target : NodeId) : Option Item × StorageNode :=
  match n.useImmutable target with
  | (some value, n) => (some (.immutable value), n)
  | (none, n) =>
    let (found, n) := n.useMutable target
    (found.map Item.mutable, n)

/-- Holds an item at its target without any check. -/
def store (n : StorageNode) : Item → StorageNode
  | .immutable value =>
    { n with immutables := n.immutables.insert (immutableTarget value) value }
  | .mutable item => { n with mutables := n.mutables.insert item.target item }

def invertLast : Bytes → Bytes
  | [] => []
  | [b] => [b ^^^ 0xFF]
  | b :: bs => b :: invertLast bs

/-- Tampers with the value of a reply, or makes one up, and claims a newer sequence number. -/
def tamper (reply : GetReply) : GetReply :=
  { reply with
    value := some (invertLast (reply.value.getD (Bytes.ofAscii "not the value you are looking for")))
    seq := reply.seq.map (·.plus 1000) }

/-- Fills in a mutable item, all of it if it is newer than asked for and else the sequence number. -/
def withMutable (reply : GetReply) (hint : Option Seq) (item : MutableItem) : GetReply :=
  if hint.any (item.seq ≤ ·) then { reply with seq := some item.seq }
  else
    { reply with
      seq := some item.seq, value := some item.value, key := some item.key
      signature := some item.signature }

/-- Looks for what a request asks for: an immutable value, unless there is a sequence number to
    exceed, and else a mutable item. -/
def lookup (n : StorageNode) (request : GetRequest) (reply : GetReply) : GetReply × StorageNode :=
  let (found, n) :=
    match request.seq with
    | none => n.useImmutable request.target
    | some _ => (none, n)
  match found with
  | some value => ({ reply with value := some value }, n)
  | none =>
    match n.useMutable request.target with
    | (none, n) => (reply, n)
    | (some item, n) => (withMutable reply request.seq item, n)

/-- Answers a get. The nodes are those that the node knows to be close to the target. -/
def handleGet (n : StorageNode) (requester : Address) (request : GetRequest) (nodes : List Node) :
    GetReply × StorageNode :=
  let (reply, n) := n.lookup request
    { responder := some n.id, token := some (n.secrets.generate requester), nodes }
  (if n.behavior = .corrupt then tamper reply else reply, n)

/-- Whether a mutable item must not replace the one held. -/
def isOutdated (item held : MutableItem) : Bool :=
  item.seq < held.seq || (item.seq = held.seq && item.value ≠ held.value)

/-- Stores a mutable item of acceptable size if it verifies and is not outdated. -/
def putMutable (n : StorageNode) (item : MutableItem) : Except Refusal Unit × StorageNode :=
  if (item.salt.getD []).length > maxSaltSize then (.error .saltTooBig, n)
  else
    match MutableItem.verified item.target item.key.bytes item.value item.seq item.signature.bytes
        item.salt with
    | .error _ => (.error .badSignature, n)
    | .ok _ =>
      let (held, n) := n.useMutable item.target
      if held.any (isOutdated item) then (.error .outdated, n)
      else (.ok (), n.store (.mutable item))

/-- Answers a put: stores the item or says why not. -/
def handlePut (n : StorageNode) (requester : Address) (request : PutRequest) :
    Except Refusal Unit × StorageNode :=
  if n.behavior = .rejectWrites then (.error .unwilling, n)
  else if !n.secrets.validates requester request.token then (.error .badToken, n)
  else if request.item.value.length > maxValueSize then (.error .valueTooBig, n)
  else
    match request.item with
    | .immutable value => (.ok (), n.store (.immutable value))
    | .mutable item => n.putMutable item

end StorageNode

end DhtStore
