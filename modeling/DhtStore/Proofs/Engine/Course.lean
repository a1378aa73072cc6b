import DhtStore.Engine

namespace DhtStore

/-- A lookup under way: the state of its engine, and all that passed between the two. -/
structure Course (S : Type) where
  state : S
  inFlight : List Node := []
  seeds : List Node := []
  /-- The nodes asked, batch by batch. -/
  batches : List (List Node) := []
  /-- The reports taken in, each with the node that was asked. -/
  reports : List (Node × QueryReport) := []

namespace Course

variable {S : Type} (e : Engine S) (accepts : Node → Bool)

/-- All nodes asked, in the order they were. -/
def asked (c : Course S) : List Node := c.batches.flatten

def ask (c : Course S) : Course S :=
  let wanted := e.next c.inFlight.length c.state
  { c with
    state := wanted.2
    inFlight := c.inFlight ++ wanted.1
    batches := c.batches ++ [wanted.1] }

def seed (nodes : List Node) (c : Course S) : Course S :=
  { c with state := e.seed accepts nodes c.state, seeds := c.seeds ++ nodes }

/-- Takes in the report on a node, with the others still in flight. -/
def settle (node : Node) (report : QueryReport) (others : List Node) (c : Course S) : Course S :=
  { c with
    state := e.settle accepts node report c.state
    inFlight := others
    reports := c.reports ++ [(node, report)] }

@[simp] theorem asked_ask (c : Course S) :
    (c.ask e).asked = c.asked ++ (e.next c.inFlight.length c.state).1 := by
  simp [asked, ask]

@[simp] theorem asked_seed (c : Course S) (nodes : List Node) :
    (c.seed e accepts nodes).asked = c.asked := rfl

@[simp] theorem asked_settle (c : Course S) (node : Node) (report : QueryReport) (others : List Node) :
    (c.settle e accepts node report others).asked = c.asked := rfl

end Course

variable {S : Type} {e : Engine S} {accepts : Node → Bool} {target : NodeId}

/-- The courses that lookups for a target can take. Nodes may be given at any time. -/
inductive Engine.Reaches (e : Engine S) (accepts : Node → Bool) (target : NodeId) : Course S → Prop
  | start : Reaches e accepts target { state := e.start target }
  | seed {c : Course S} (nodes : List Node) :
    Reaches e accepts target c → Reaches e accepts target ((c.seed e accepts nodes).ask e)
  | settle {c : Course S} {node : Node} {others : List Node} (report : QueryReport) :
    Reaches e accepts target c → c.inFlight.Perm (node :: others) →
      Reaches e accepts target ((c.settle e accepts node report others).ask e)

/-- What asking, seeding and settling keep holds of every course. -/
theorem Engine.Reaches.invariant {I : Course S → Prop} {c : Course S} (hreach : e.Reaches accepts target c)
    (hstart : I { state := e.start target }) (hask : ∀ c, I c → I (c.ask e))
    (hseed : ∀ c nodes, I c → I (c.seed e accepts nodes))
    (hsettle : ∀ (c : Course S) node report others, c.inFlight.Perm (node :: others) → I c →
      I (c.settle e accepts node report others)) : I c := by
  induction hreach with
  | start => exact hstart
  | seed nodes _ ih => exact hask _ (hseed _ nodes ih)
  | settle report _ hperm ih => exact hask _ (hsettle _ _ report _ hperm ih)

/-- The courses of a lookup, each with the nodes that it was given or that reports named, in the order in
    which the lookup took them in. -/
inductive Engine.Hears (e : Engine S) (accepts : Node → Bool) (target : NodeId) :
    Course S → List Node → Prop
  | start : Hears e accepts target { state := e.start target } []
  | seed {c : Course S} {heard : List Node} (nodes : List Node) : Hears e accepts target c heard →
    Hears e accepts target ((c.seed e accepts nodes).ask e) (heard ++ nodes)
  | settle {c : Course S} {heard : List Node} {node : Node} {others : List Node} (report : QueryReport) :
    Hears e accepts target c heard → c.inFlight.Perm (node :: others) →
      Hears e accepts target ((c.settle e accepts node report others).ask e) (heard ++ report.closer)

/-- The courses of a lookup that is given nodes once, to begin with. -/
inductive Engine.Pursues (e : Engine S) (accepts : Node → Bool) (target : NodeId) (nodes : List Node) :
    Course S → Prop
  | begin : Pursues e accepts target nodes
    ((({ state := e.start target } : Course S).seed e accepts nodes).ask e)
  | settle {c : Course S} {node : Node} {others : List Node} (report : QueryReport) :
    Pursues e accepts target nodes c → c.inFlight.Perm (node :: others) →
      Pursues e accepts target nodes ((c.settle e accepts node report others).ask e)

section

variable {c : Course S} {heard nodes : List Node}

theorem Engine.Hears.reaches (hhears : e.Hears accepts target c heard) : e.Reaches accepts target c := by
  induction hhears with
  | start => exact .start
  | seed nodes _ ih => exact ih.seed nodes
  | settle report _ hperm ih => exact ih.settle report hperm

/-- A lookup hears of the nodes that it is given and of those that the reports name, and of no others. -/
theorem Engine.Hears.mem_iff (hhears : e.Hears accepts target c heard) (node : Node) :
    node ∈ heard ↔ node ∈ c.seeds ∨ ∃ entry ∈ c.reports, node ∈ entry.2.closer := by
  induction hhears with
  | start => simp
  | @seed c heard nodes _ ih =>
    change node ∈ heard ++ nodes ↔ node ∈ c.seeds ++ nodes ∨ ∃ entry ∈ c.reports, node ∈ entry.2.closer
    rw [List.mem_append, List.mem_append, ih]
    exact or_right_comm
  | @settle c heard asked others report _ _ ih =>
    change node ∈ heard ++ report.closer ↔
      node ∈ c.seeds ∨ ∃ entry ∈ c.reports ++ [(asked, report)], node ∈ entry.2.closer
    rw [List.mem_append, ih, or_assoc]
    simp [or_and_right, exists_or]

namespace Engine.Pursues

theorem reaches (hpursues : e.Pursues accepts target nodes c) : e.Reaches accepts target c := by
  induction hpursues with
  | begin => exact .seed nodes .start
  | settle report _ hperm ih => exact ih.settle report hperm

theorem seeds_eq (hpursues : e.Pursues accepts target nodes c) : c.seeds = nodes := by
  induction hpursues with
  | begin => rfl
  | settle _ _ _ ih => exact ih

theorem hears (hpursues : e.Pursues accepts target nodes c) :
    e.Hears accepts target c (nodes ++ c.reports.flatMap fun entry => entry.2.closer) := by
  induction hpursues with
  | begin => exact (List.append_nil nodes).symm ▸ .seed nodes .start
  | @settle c node others report _ hperm ih =>
    have hheard := ih.settle report hperm
    rw [List.append_assoc] at hheard
    simpa [Course.settle, Course.ask] using hheard

/-- What a lookup wants as it begins is among what it asks in the end. -/
theorem first_subset_asked (hpursues : e.Pursues accepts target nodes c) :
    (e.next 0 (e.seed accepts nodes (e.start target))).1 ⊆ c.asked := by
  induction hpursues with
  | begin => simp [Course.asked, Course.ask, Course.seed]
  | settle _ _ _ ih =>
    rw [Course.asked_ask, Course.asked_settle]
    exact List.subset_append_of_subset_left _ ih

end Engine.Pursues

end

end DhtStore
