import DhtStore.Node

namespace DhtStore

/-- Nodes in the order of their distance to a target, at most one of each id. -/
structure ClosestNodes where
  target : NodeId
  nodes : List Node

namespace ClosestNodes

def empty (target : NodeId) : ClosestNodes := ⟨target, []⟩

def size (c : ClosestNodes) : Nat := c.nodes.length

def isEmpty (c : ClosestNodes) : Bool := c.nodes.isEmpty

def writable (c : ClosestNodes) : List Node := c.nodes.filter Node.isWritable

/-- Puts a node in front of the first that is not closer to the target; an id that is present
    already keeps its node. -/
def add (c : ClosestNodes) (node : Node) : ClosestNodes :=
  if c.nodes.any (·.id = node.id) then c
  else
    let closer (other : Node) : Bool := decide (NodeId.CloserTo c.target other.id node.id)
    { c with nodes := c.nodes.takeWhile closer ++ node :: c.nodes.dropWhile closer }

@[simp] theorem target_add (c : ClosestNodes) (node : Node) :
    (c.add node).target = c.target := by
  unfold add
  split <;> rfl

/-- Adding a node loses none, and gains it if its id is new. -/
theorem mem_nodes_add {c : ClosestNodes} {node other : Node} :
    other ∈ (c.add node).nodes ↔
      other ∈ c.nodes ∨ (other = node ∧ ∀ known ∈ c.nodes, known.id ≠ node.id) := by
  by_cases hknown : c.nodes.any (·.id = node.id) = true
  · have hold : ¬ ∀ known ∈ c.nodes, known.id ≠ node.id := by
      obtain ⟨known, hmem, hid⟩ := List.any_eq_true.1 hknown
      exact fun hnew => hnew known hmem (of_decide_eq_true hid)
    simp [add, hknown, hold]
  · have hnew : ∀ known ∈ c.nodes, known.id ≠ node.id := by simpa using hknown
    let closer (n : Node) : Bool := decide (NodeId.CloserTo c.target n.id node.id)
    have hnodes : (c.add node).nodes =
        c.nodes.takeWhile closer ++ node :: c.nodes.dropWhile closer := by
      simp only [add, hknown, Bool.false_eq_true, if_false, closer]
    have hsplit : other ∈ c.nodes ↔
        other ∈ c.nodes.takeWhile closer ∨ other ∈ c.nodes.dropWhile closer := by
      rw [← List.mem_append, List.takeWhile_append_dropWhile]
    rw [hnodes, List.mem_append, List.mem_cons, hsplit]
    constructor
    · rintro (hmem | rfl | hmem)
      · exact .inl (.inl hmem)
      · exact .inr ⟨rfl, hnew⟩
      · exact .inl (.inr hmem)
    · rintro ((hmem | hmem) | ⟨rfl, _⟩)
      · exact .inl hmem
      · exact .inr (.inr hmem)
      · exact .inr (.inl rfl)

def addAll (c : ClosestNodes) (nodes : List Node) : ClosestNodes :=
  nodes.foldl add c

@[simp] theorem target_addAll (c : ClosestNodes) (nodes : List Node) :
    (c.addAll nodes).target = c.target := by
  induction nodes generalizing c with
  | nil => rfl
  | cons node nodes ih => exact (ih (c.add node)).trans (c.target_add node)

def truncate (c : ClosestNodes) (k : Nat) : ClosestNodes :=
  { c with nodes := c.nodes.take k }

end ClosestNodes

end DhtStore
