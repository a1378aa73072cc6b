import DhtStore.History
import DhtStore.Transport

namespace DhtStore

inductive WriteOutcome
  | stored
  | failed (error : RequestError)
  /-- The call was over before the write was. -/
  | interrupted
deriving DecidableEq

/-- A node of the write set and the outcome there. -/
structure Write where
  node : Node
  outcome : WriteOutcome
deriving DecidableEq

namespace FanOut

/-- A node, and when and how the write to it would end if the call lasted; none if nothing was sent to it. -/
structure Slot where
  node : Node
  due : Option (Instant × WriteOutcome)

/-- When and how a write that began at some instant ends. An answer at the very instant of the
    timeout counts. -/
def conclude (start timeout : Nat) : Delivery Unit → Instant × WriteOutcome
  | .never => (start + timeout, .failed .timeout)
  | .after delay answer =>
    if timeout < delay then (start + timeout, .failed .timeout)
    else
      match answer with
      | .ok () => (start + delay, .stored)
      | .error error => (start + delay, .failed error)

/-- A node of the write set and the request that `put` was called with for it, if it issued a token. The call
    makes a task, and nothing is sent before this task is polled for the first time. -/
structure Task where
  node : Node
  request : Option PutRequest

/-- Calls `put` for each node that issued a token, with that token. -/
def spawn (item : Item) (nodes : List Node) : List Task :=
  nodes.map fun node => ⟨node, node.token.map fun token => ⟨token, item⟩⟩

/-- What has become of the tasks once they had their turn. -/
structure Sent (σ : Type) where
  slots : List Slot
  history : History
  network : σ

/-- The tasks are polled in turn, and send their requests. -/
def send {σ : Type} (transport : Transport σ) (timeout : Nat) (now : Instant) : List Task → σ → Sent σ
  | [], network => ⟨[], [], network⟩
  | ⟨node, none⟩ :: tasks, network =>
    let rest := send transport timeout now tasks network
    { rest with slots := ⟨node, none⟩ :: rest.slots }
  | ⟨node, some request⟩ :: tasks, network =>
    let sent := transport.put now node.address request network
    let rest := send transport timeout now tasks sent.2
    { rest with
      slots := ⟨node, some (conclude now timeout sent.1)⟩ :: rest.slots
      history := .wrote now node.address request :: rest.history }

/-- The tasks are aborted before they had their turn: what they were to send is dropped. -/
def abort {σ : Type} (now : Instant) (tasks : List Task) (network : σ) : Sent σ where
  slots := tasks.map fun task => ⟨task.node, none⟩
  history := tasks.filterMap fun task => task.request.map (.unwritten now task.node.address ·)
  network := network

/-- Spawns the tasks and begins to wait for them. The caller looks first whether the call is over, and only if it
    is not the tasks have their turn. -/
def begin {σ : Type} (transport : Transport σ) (lifetime : Lifetime) (timeout : Nat) (nodes : List Node)
    (item : Item) (now : Instant) (network : σ) : Sent σ :=
  let tasks := spawn item nodes
  match lifetime.poll? now with
  | some _ => abort now tasks network
  | none => send transport timeout now tasks network

/-- The outcome in a slot: a write that is due when the lifetime is over is interrupted. -/
def Slot.outcome (lifetime : Lifetime) (slot : Slot) : WriteOutcome :=
  match slot.due with
  | none => .interrupted
  | some (due, outcome) => if lifetime.isOver due then .interrupted else outcome

def finish (now : Instant) (slots : List Slot) : Instant :=
  (slots.filterMap fun slot => slot.due.map Prod.fst).foldl max now

structure Result (σ : Type) where
  writes : List Write
  /-- When the last write was over, or the lifetime. -/
  finished : Instant
  network : σ
  history : History

end FanOut

/-- Writes an item to some nodes and waits until all writes are over, or the lifetime is. -/
def fanOut {σ : Type} (transport : Transport σ) (lifetime : Lifetime) (timeout : Nat)
    (nodes : List Node) (item : Item) (now : Instant) (network : σ) : FanOut.Result σ :=
  let sent := FanOut.begin transport lifetime timeout nodes item now network
  let finish := FanOut.finish now sent.slots
  { writes := sent.slots.map fun slot => ⟨slot.node, slot.outcome lifetime⟩
    finished := match lifetime.endsAt? with
      | none => finish
      | some last => min finish (max now last)
    network := sent.network
    history := sent.history }

end DhtStore
