import DhtStore.Classification
import DhtStore.Engine
import DhtStore.History
import DhtStore.Reconciliation
import DhtStore.Transport

namespace DhtStore

/-- Which of the moves possible at one instant is made: for each move of a discovery, a position
    among those possible then, modulo their number. -/
abbrev Schedule := Nat → Nat

/-- The reader acts first, then the engine; queries end in the order they began. -/
def Schedule.inTurn : Schedule := fun _ => 0

/-- What a reply tells the engine. A responder goes by the id it gives, else by the one it was asked
    under, and always by the address it was asked at. -/
def GetReply.report (reply : GetReply) (asked : Node) : QueryReport :=
  { responder := reply.token.map fun token =>
      { id := reply.responder.getD asked.id, address := asked.address, token := some token }
    closer := reply.nodes }

/-- A query under way, and how and when it will end. -/
structure Flight where
  node : Node
  due : Instant
  result : QueryEnd
deriving DecidableEq

namespace Flight

/-- A query that began at some instant: it is over once it is answered, and at the latest after the
    timeout. -/
def depart (start timeout : Nat) (node : Node) : Delivery GetReply → Flight
  | .never => ⟨node, start + timeout, .timedOut⟩
  | .after delay answer =>
    if timeout < delay then ⟨node, start + timeout, .timedOut⟩
    else
      match answer with
      | .ok reply => ⟨node, start + delay, .replied reply (decide (delay < timeout))⟩
      | .error error => ⟨node, start + delay, .failed error⟩

/-- The valid item that a query brings in time. -/
def item? (f : Flight) (target : NodeId) (salt : Option Bytes) : Option Item :=
  match f.result with
  | .replied reply true => (reply.classify target salt).item?
  | _ => none

def report (f : Flight) : QueryReport :=
  match f.result with
  | .replied reply _ => reply.report f.node
  | _ => {}

end Flight

structure Offer where
  node : Node
  item : Item
deriving DecidableEq

/-- Each element of a list, together with the others. -/
def picks {α : Type} : List α → List (α × List α)
  | [] => []
  | x :: xs => (x, xs) :: (picks xs).map fun (y, others) => (y, x :: others)

/-- Taking an element out loses none of the others. -/
theorem perm_of_mem_picks {α : Type} {x : α} {xs others : List α} (hpick : (x, others) ∈ picks xs) :
    xs.Perm (x :: others) := by
  induction xs generalizing others with
  | nil => simp [picks] at hpick
  | cons y ys ih =>
    obtain heq | hlater := List.mem_cons.1 hpick
    · cases heq
      exact .refl _
    · obtain ⟨⟨z, zs⟩, hmem, heq⟩ := List.mem_map.1 hlater
      cases heq
      exact ((ih hmem).cons y).trans (.swap x y zs)

/-- What a discovery looks for, and by which means. -/
structure Search (σ S : Type) where
  transport : Transport σ
  engine : Engine S
  schedule : Schedule := Schedule.inTurn
  /-- How long a single query may take. -/
  timeout : Nat
  lifetime : Lifetime
  target : NodeId
  /-- Nodes are asked for mutable items with a higher sequence number only. -/
  seq : Option Seq
  salt : Option Bytes

/-- What a party of a discovery can do at an instant. -/
inductive Move
  /-- The reader takes the item that was offered first. -/
  | read (offer : Offer) (rest : List Offer)
  /-- The reader acts on the end of the engine. -/
  | finish
  /-- The reader finds the call over. -/
  | interrupt (reason : Interruption)
  /-- The engine takes in the nodes that it begins with. -/
  | seed
  /-- The engine takes in the report of a query. -/
  | report (flight : Flight) (rest : List Flight)
  | land (flight : Flight) (rest : List Flight)
  /-- A query finds the call over, and brings nothing. -/
  | cut (flight : Flight) (rest : List Flight)
  /-- The supervisor finds the call over, and stops the engine. -/
  | stop

/-- A discovery asks nodes for the item at a target, as its engine names them, and offers each valid item to a reader
    the instant it arrives. Queries, engine, reader and supervisor act on their own, in any order at one instant; time
    passes once none of them can act. -/
structure Discovery (σ S ρ : Type) where
  now : Instant
  network : σ
  engine : S
  inFlight : List Flight := []
  /-- Queries that are over while the engine has not taken in their reports. An item need not have
      found the reader by then: a reader that waits lets the query go at once. -/
  ended : List Flight := []
  /-- Items that the reader has not taken yet, in the order they came. -/
  offered : List Offer := []
  /-- Whether the engine took in the nodes that it begins with. -/
  seeded : Bool := false
  /-- Whether the engine was stopped, and its queries with it. -/
  stopped : Bool := false
  /-- Whether the engine let it be known, while the call lasted, that nothing is left to ask. -/
  atEnd : Bool := false
  /-- Whether it did so when the call was over already. -/
  atEndLate : Bool := false
  moved : Nat := 0
  reader : ρ
  history : History := []

inductive Ending (ρ : Type)
  /-- The reader wants no more than this item. -/
  | resolved (item : Item)
  /-- Nothing is left to ask; this is what the reader made of all items. -/
  | exhausted (state : ρ)
  | interrupted (reason : Interruption)
  | endless
deriving DecidableEq

/-- What a move, or the passing of time, leads to. -/
inductive Progress (σ S ρ : Type)
  | ended (ending : Ending ρ) (d : Discovery σ S ρ)
  | going (d : Discovery σ S ρ)

namespace Search

variable {σ S ρ : Type} (s : Search σ S)

def request : GetRequest := ⟨s.target, s.seq⟩

/-- What the reader can do. It looks first whether the call is over, then for an item, and last for the end of the
    engine. -/
def readerMoves (d : Discovery σ S ρ) : List Move :=
  match s.lifetime.poll? d.now with
  | some reason => [.interrupt reason]
  | none =>
    match d.offered with
    | offer :: rest => [.read offer rest]
    | [] => if d.atEnd || d.atEndLate then [.finish] else []

def engineMoves (d : Discovery σ S ρ) : List Move :=
  if d.stopped then []
  else (if d.seeded then [] else [.seed]) ++ (picks d.ended).map fun (flight, rest) => .report flight rest

/-- What the queries can do. Each looks first whether the call is over, and only then for its answer or timeout. -/
def queryMoves (d : Discovery σ S ρ) : List Move :=
  if d.stopped then []
  else
    match s.lifetime.poll? d.now with
    | some _ => (picks d.inFlight).map fun (flight, rest) => .cut flight rest
    | none => ((picks d.inFlight).filter (·.1.due = d.now)).map fun (flight, rest) => .land flight rest

/-- What the supervisor can do. It stops an engine that is at its end, too, but there is nothing left to stop then. -/
def supervisorMoves (d : Discovery σ S ρ) : List Move :=
  match s.lifetime.poll? d.now with
  | some _ => if d.stopped then [] else [.stop]
  | none => []

/-- The moves possible at the present instant. -/
def moves (d : Discovery σ S ρ) : List Move :=
  s.readerMoves d ++ engineMoves d ++ s.queryMoves d ++ s.supervisorMoves d

/-- Begins a query. It looks first whether the call is over, and sends its request only if it is not. -/
def ask (d : Discovery σ S ρ) (node : Node) : Discovery σ S ρ :=
  match s.lifetime.poll? d.now with
  | some _ =>
    { d with
      inFlight := d.inFlight ++ [.depart d.now s.timeout node .never]
      history := d.history ++ [.unasked d.now node s.request] }
  | none =>
    let sent := s.transport.get d.now node.address s.request d.network
    { d with
      network := sent.2
      inFlight := d.inFlight ++ [.depart d.now s.timeout node sent.1]
      history := d.history ++ [.asked d.now node s.request] }

/-- Begins the queries that the engine wants. If none is left the engine is at its end, and says so
    unless it keeps silent for ever. -/
def advance (d : Discovery σ S ρ) : Discovery σ S ρ :=
  let wanted := s.engine.next (d.inFlight.length + d.ended.length) d.engine
  let begun := wanted.1.foldl s.ask { d with engine := wanted.2 }
  let atEnd := s.engine.atEnd ≠ .hang && begun.inFlight.isEmpty && begun.ended.isEmpty
  { begun with
    atEnd := atEnd && !s.lifetime.isOver d.now
    atEndLate := atEnd && s.lifetime.isOver d.now }

/-- Gives the engine the nodes to begin with, and begins the first queries. -/
def seed (d : Discovery σ S ρ) : Discovery σ S ρ :=
  let nodes := s.transport.startingNodes d.network
  s.advance { d with engine := s.engine.seed s.transport.accepts nodes d.engine, seeded := true }

/-- Ends a query. The valid item that it brings in time is offered. -/
def land (flight : Flight) (d : Discovery σ S ρ) : Discovery σ S ρ :=
  { d with
    ended := d.ended ++ [flight]
    offered := d.offered ++ ((flight.item? s.target s.salt).map (Offer.mk flight.node)).toList
    history := d.history ++ [.settled d.now flight.node flight.result] }

def take (offer : Offer) (d : Discovery σ S ρ) : Discovery σ S ρ :=
  { d with history := d.history ++ [.read d.now offer.node offer.item] }

/-- Reports a query to the engine and sends the queries it wants next. -/
def resume (flight : Flight) (d : Discovery σ S ρ) : Discovery σ S ρ :=
  s.advance
    { d with engine := s.engine.settle s.transport.accepts flight.node flight.report d.engine }

def perform (read : Reader ρ) (d : Discovery σ S ρ) : Move → Progress σ S ρ
  | .read offer rest =>
    let taken := take offer { d with offered := rest }
    match read d.reader offer.item with
    | .resolved item => .ended (.resolved item) taken
    | .reading reader => .going { taken with reader }
  | .finish => .ended (.exhausted d.reader) d
  | .interrupt reason => .ended (.interrupted reason) d
  | .seed => .going (s.seed d)
  | .report flight rest => .going (s.resume flight { d with ended := rest })
  | .land flight rest => .going (s.land flight { d with inFlight := rest })
  | .cut flight rest =>
    .going { d with inFlight := rest, ended := d.ended ++ [{ flight with result := .interrupted }] }
  | .stop => .going { d with stopped := true }

/-- The next instant at which a query is due or the lifetime over. -/
def wakesAt? (d : Discovery σ S ρ) : Option Instant :=
  (s.lifetime.endsAt?.toList ++ d.inFlight.map Flight.due).min?

/-- Lets time pass until somebody can act, if anybody ever can. -/
def pass (d : Discovery σ S ρ) : Progress σ S ρ :=
  match s.wakesAt? d with
  | some time => .going { d with now := time }
  | none => .ended .endless d

/-- Makes the move that is next on schedule; if none is possible, lets time pass. -/
def step (read : Reader ρ) (d : Discovery σ S ρ) : Progress σ S ρ :=
  match (s.moves d)[s.schedule d.moved % (s.moves d).length]? with
  | some move => s.perform read { d with moved := d.moved + 1 } move
  | none => s.pass d

/-- Takes steps until the discovery ends; `fuel` bounds their number. -/
def run (read : Reader ρ) : (fuel : Nat) → Discovery σ S ρ → Ending ρ × Discovery σ S ρ
  | 0, d => (.endless, d)
  | fuel + 1, d =>
    match s.step read d with
    | .ended ending d => (ending, d)
    | .going d => run read fuel d

/-- What is still asked once a discovery has ended. -/
def overrun (ending : Ending ρ) (d : Discovery σ S ρ) : History :=
  match ending with
  | .interrupted .deadlineExceeded =>
    (s.engine.overrun d.engine).map fun node => .unasked d.now node s.request
  | _ => []

/-- A discovery of which no task has done anything yet. -/
def initial (now : Instant) (network : σ) (reader : ρ) : Discovery σ S ρ where
  now
  network
  engine := s.engine.start s.target
  reader

/-- Discovers from an instant on. For each query, time passes at most once, and the query ends, is reported and has
    its item read. Besides the engine takes in the nodes to begin with, time passes to the end of the lifetime, the
    supervisor stops the engine, and the reader acts on the end. -/
def discover (read : Reader ρ) (reader : ρ) (now : Instant) (network : σ) :
    Ending ρ × Discovery σ S ρ :=
  let fuel := 4 * s.engine.bound (s.transport.startingNodes network) + 4
  s.run read fuel (s.initial now network reader)

end Search

end DhtStore
