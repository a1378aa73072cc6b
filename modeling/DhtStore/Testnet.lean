import DhtStore.ClosestNodes
import DhtStore.StorageNode
import DhtStore.Transport

namespace DhtStore

/-- Inserts an element in front of the first that is at least as far. -/
def insertByDistance {α : Type} (x : NodeId × α) : List (NodeId × α) → List (NodeId × α)
  | [] => [x]
  | y :: ys => if y.1 < x.1 then y :: insertByDistance x ys else x :: y :: ys

/-- Sorts elements by the distance of their ids to a target; elements at equal distance keep their
    order. -/
def sortByDistance {α : Type} (id : α → NodeId) (target : NodeId) (xs : List α) : List α :=
  ((xs.map fun x => ((id x).xor target, x)).foldr insertByDistance []).map Prod.snd

/-- Storage nodes, each at its own address. -/
structure Testnet where
  nodes : List StorageNode

namespace Testnet

/-- The number of nodes that a lookup begins with. -/
def bootstrapSize : Nat := 8

/-- The number of nodes that a reply names, and that an item is seeded at. -/
def bucketSize : Nat := 20

/-- The address that requests come from. -/
def clientAddress : Address := Address.ofV4 127 0 0 1 6881

/-- The address of the node of an index: the index fills the last three bytes. -/
def addressOf (index : Nat) : Address :=
  Address.ofV4 10 (UInt8.ofNat (index / 65536)) (UInt8.ofNat (index / 256)) (UInt8.ofNat index) 6881

/-- Creates nodes from an index on. The given ids come first; further ones are drawn, as are the
    secrets of all nodes. -/
def createFrom (index : Nat) (ids : List NodeId) : (count : Nat) → Draws → List StorageNode
  | 0, _ => []
  | count + 1, d =>
    let (id, d) :=
      match ids with
      | id :: _ => (id, d)
      | [] => d.nextId
    let (secrets, d) := TokenSecrets.draw d
    .create id (addressOf index) secrets :: createFrom (index + 1) (ids.drop 1) count d

def create (count : Nat) (ids : List NodeId) (d : Draws) : Testnet :=
  ⟨createFrom 0 ids count d⟩

def node? (t : Testnet) (address : Address) : Option StorageNode :=
  t.nodes.find? (·.address = address)

def modify (t : Testnet) (address : Address) (f : StorageNode → StorageNode) : Testnet :=
  ⟨t.nodes.map fun n => if n.address = address then f n else n⟩

def modifyAll (t : Testnet) (addresses : List Address) (f : StorageNode → StorageNode) : Testnet :=
  ⟨t.nodes.map fun n => if addresses.contains n.address then f n else n⟩

/-- The nodes closest to a target, closest first. -/
def closest (t : Testnet) (target : NodeId) (count : Nat) : List StorageNode :=
  (sortByDistance StorageNode.id target t.nodes).take count

/-- What every node replies to the question who is close to a target. -/
def closestNodes (t : Testnet) (target : NodeId) : List Node :=
  ((ClosestNodes.empty target).addAll ((t.closest target bucketSize).map StorageNode.node)).nodes

/-- The nodes that an item is seeded at. -/
def seedNodes (t : Testnet) (item : Item) : List StorageNode := t.closest item.target bucketSize

/-- Stores an item at the nodes closest to its target. -/
def seed (t : Testnet) (item : Item) : Testnet :=
  t.modifyAll ((t.seedNodes item).map StorageNode.address) (·.store item)

def setBehavior (t : Testnet) (addresses : List Address) (behavior : Behavior) : Testnet :=
  t.modifyAll addresses fun n => { n with behavior }

def setBehaviorOfAll (t : Testnet) (behavior : Behavior) : Testnet :=
  ⟨t.nodes.map fun n => { n with behavior }⟩

/-- Gives a behavior to some of the nodes closest to a target, after skipping others. -/
def setBehaviorAround (t : Testnet) (target : NodeId) (skip count : Nat) (behavior : Behavior) :
    Testnet :=
  t.setBehavior (((t.closest target (skip + count)).drop skip).map StorageNode.address) behavior

/-- The index of a node, found by its address. -/
def indexOf (t : Testnet) (n : StorageNode) : Nat := t.nodes.findIdx (·.address = n.address)

/-- What each node holds at a target, node by node; to look is to use it. -/
def inspect (t : Testnet) (target : NodeId) : List (Option Item) × Testnet :=
  let seen := t.nodes.map (·.item target)
  (seen.map Prod.fst, ⟨seen.map Prod.snd⟩)

/-- The node at an address, if it can be reached. -/
def reachable? (t : Testnet) (address : Address) : Option StorageNode :=
  (t.node? address).filter (·.behavior ≠ .offline)

def get (address : Address) (request : GetRequest) (t : Testnet) : Delivery GetReply × Testnet :=
  match t.reachable? address with
  | none => (.after 0 (.error (.unreachable address)), t)
  | some n =>
    if n.behavior = .unresponsive then (.never, t)
    else
      let (reply, n) := n.handleGet clientAddress request (t.closestNodes request.target)
      (.after 0 (.ok reply), t.modify address fun _ => n)

def put (address : Address) (request : PutRequest) (t : Testnet) : Delivery Unit × Testnet :=
  match t.reachable? address with
  | none => (.after 0 (.error (.unreachable address)), t)
  | some n =>
    if n.behavior = .unresponsive || n.behavior = .hangWrites then (.never, t)
    else
      let (answer, n) := n.handlePut clientAddress request
      (.after 0 (answer.mapError fun refusal => .refused refusal.error),
        t.modify address fun _ => n)

def startingNodes (t : Testnet) : List Node := (t.nodes.take bootstrapSize).map StorageNode.node

def transport : Transport Testnet where
  get _ := get
  put _ := put
  startingNodes := startingNodes

end Testnet

end DhtStore
