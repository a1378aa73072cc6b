import DhtStore.Engine

namespace DhtStore.Iterative

structure Width where
  /-- The most queries in flight at once. -/
  alpha : Nat := 15
  /-- The number of closest nodes that the lookup settles on. -/
  k : Nat := 20
deriving DecidableEq

/-- A width of at least one in both directions. -/
def Width.ofAtLeastOne (alpha k : Nat) : Width := ⟨max alpha 1, max k 1⟩

structure Lookup where
  candidates : ClosestNodes
  visited : List Address := []
  /-- The nodes that answered with a token. -/
  responders : ClosestNodes
  stats : LookupStats := {}

namespace Lookup

def start (target : NodeId) : Lookup :=
  { candidates := .empty target, responders := .empty target }

def isVisited (l : Lookup) (node : Node) : Bool := l.visited.contains node.address

/-- The nodes to ask now: of the `k` closest those whose address was not asked, as many as there is
    room for. Two of them may share an address. -/
def next (w : Width) (inFlight : Nat) (l : Lookup) : List Node × Lookup :=
  let nodes := ((l.candidates.nodes.take w.k).filter (!l.isVisited ·)).take (w.alpha - inFlight)
  (nodes, { l with
    visited := nodes.map Node.address ++ l.visited
    stats := { l.stats with tried := l.stats.tried + nodes.length } })

def seed (accepts : Node → Bool) (nodes : List Node) (l : Lookup) : Lookup :=
  { l with candidates := l.candidates.addAll (nodes.filter accepts) }

def respond (responder : Option Node) (l : Lookup) : Lookup :=
  match responder with
  | none => l
  | some node =>
    { l with
      responders := l.responders.add node
      stats := { l.stats with responses := l.stats.responses + 1 } }

/-- Counts a responder in, and adds the nodes named whose address was not asked. -/
def settle (accepts : Node → Bool) (report : QueryReport) (l : Lookup) : Lookup :=
  (l.respond report.responder).seed (fun node => !l.isVisited node && accepts node) report.closer

section

variable (w : Width) (inFlight : Nat) (l : Lookup) (accepts : Node → Bool) (nodes : List Node)

@[simp] theorem candidates_next : (l.next w inFlight).2.candidates = l.candidates := rfl

@[simp] theorem responders_next : (l.next w inFlight).2.responders = l.responders := rfl

@[simp] theorem responses_next : (l.next w inFlight).2.stats.responses = l.stats.responses := rfl

@[simp] theorem candidates_seed :
    (l.seed accepts nodes).candidates = l.candidates.addAll (nodes.filter accepts) := rfl

@[simp] theorem visited_seed : (l.seed accepts nodes).visited = l.visited := rfl

@[simp] theorem responders_seed : (l.seed accepts nodes).responders = l.responders := rfl

@[simp] theorem stats_seed : (l.seed accepts nodes).stats = l.stats := rfl

@[simp] theorem candidates_respond (responder : Option Node) :
    (l.respond responder).candidates = l.candidates := by
  cases responder <;> rfl

@[simp] theorem visited_respond (responder : Option Node) : (l.respond responder).visited = l.visited := by
  cases responder <;> rfl

@[simp] theorem tried_respond (responder : Option Node) :
    (l.respond responder).stats.tried = l.stats.tried := by
  cases responder <;> rfl

theorem isVisited_eq_false_iff {node : Node} : l.isVisited node = false ↔ node.address ∉ l.visited := by
  simp [isVisited]

/-- Only candidates are asked, and only at addresses not asked before. -/
theorem mem_next {node : Node} (hmem : node ∈ (l.next w inFlight).1) :
    node ∈ l.candidates.nodes ∧ node.address ∉ l.visited := by
  have hfilter := List.mem_of_mem_take hmem
  obtain ⟨htake, hfresh⟩ := List.mem_filter.1 hfilter
  exact ⟨List.mem_of_mem_take htake, l.isVisited_eq_false_iff.1 (by simpa using hfresh)⟩

end

/-- The `k` closest nodes that answered. -/
def closest (w : Width) (l : Lookup) : ClosestNodes := l.responders.truncate w.k

end Lookup

end Iterative

/-- The engine that asks its way to the nodes closest to the target. No id is asked twice, so there
    are at most as many queries as ids. -/
def Engine.iterative (w : Iterative.Width) : Engine Iterative.Lookup where
  start := Iterative.Lookup.start
  seed := Iterative.Lookup.seed
  next := Iterative.Lookup.next w
  settle accepts _ := Iterative.Lookup.settle accepts
  atEnd := .stall
  closest := Iterative.Lookup.closest w
  stats := Iterative.Lookup.stats
  bound _ := 1 <<< 160

end DhtStore
