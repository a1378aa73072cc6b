import DhtStore.Proofs.ClosestNodes
import DhtStore.Proofs.Testnet.Order
import Mathlib.Data.List.TakeWhile

namespace DhtStore.ClosestNodes

variable {c : ClosestNodes} {node : Node} {nodes : List Node} {k : Nat}

/-- What may be done to a set. -/
inductive Change
  | add (node : Node)
  | truncate (k : Nat)

def change (c : ClosestNodes) : Change → ClosestNodes
  | .add node => c.add node
  | .truncate k => c.truncate k

def changeAll (c : ClosestNodes) (changes : List Change) : ClosestNodes := changes.foldl change c

theorem Sorted.truncate (hsorted : c.Sorted) (k : Nat) : (c.truncate k).Sorted :=
  List.Pairwise.sublist (List.take_sublist k c.nodes) hsorted

theorem target_changeAll (c : ClosestNodes) (changes : List Change) : (c.changeAll changes).target = c.target := by
  induction changes generalizing c with
  | nil => rfl
  | cons first rest ih =>
    refine (ih (c.change first)).trans ?_
    cases first with
    | add node => exact c.target_add node
    | truncate k => rfl

theorem Sorted.changeAll (hsorted : c.Sorted) (changes : List Change) : (c.changeAll changes).Sorted := by
  induction changes generalizing c with
  | nil => exact hsorted
  | cons first rest ih =>
    refine ih (c := c.change first) ?_
    cases first with
    | add node => exact hsorted.add node
    | truncate k => exact hsorted.truncate k

section Place

/-- A place for a node: the nodes in front of it are closer to the target, and those behind it are not. -/
structure IsPlace (c : ClosestNodes) (node : Node) (i : Nat) : Prop where
  le : i ≤ c.nodes.length
  before : ∀ earlier ∈ c.nodes.take i, NodeId.CloserTo c.target earlier.id node.id
  behind : ∀ later ∈ c.nodes.drop i, ¬ NodeId.CloserTo c.target later.id node.id

/-- The position of the first node that is not closer to the target. -/
def place (c : ClosestNodes) (node : Node) : Nat :=
  c.nodes.findIdx fun known => !decide (NodeId.CloserTo c.target known.id node.id)

/-- In a set in order, all nodes closer than another stand in front of all others. -/
theorem Sorted.isPlace (hsorted : c.Sorted) (node : Node) : c.IsPlace node (c.place node) where
  le := List.findIdx_le_length
  before earlier hearlier := by
    rw [place, ← List.takeWhile_eq_take_findIdx_not] at hearlier
    exact of_decide_eq_true (List.all_eq_true.1 List.all_takeWhile earlier hearlier)
  behind later hlater := by
    rw [place, ← List.dropWhile_eq_drop_findIdx_not] at hlater
    exact not_closer_of_mem_dropWhile hsorted later hlater

theorem IsPlace.not_lt {i j : Nat} (hi : c.IsPlace node i) (hj : c.IsPlace node j) : ¬ i < j := by
  intro hlt
  have hbound : i < c.nodes.length := Nat.lt_of_lt_of_le hlt hj.le
  have hbefore : c.nodes[i] ∈ c.nodes.take j := List.mem_take_iff_getElem.2 ⟨i, by omega, rfl⟩
  have hbehind : c.nodes[i] ∈ c.nodes.drop i := List.mem_drop_iff_getElem.2 ⟨0, by omega, rfl⟩
  exact hi.behind _ hbehind (hj.before _ hbefore)

theorem Sorted.isPlace_iff (hsorted : c.Sorted) {i : Nat} : c.IsPlace node i ↔ i = c.place node := by
  have hplace := hsorted.isPlace node
  constructor
  · intro hi
    exact Nat.le_antisymm (Nat.le_of_not_lt (hplace.not_lt hi)) (Nat.le_of_not_lt (hi.not_lt hplace))
  · rintro rfl
    exact hplace

/-- A node whose id is new comes to stand at its place. -/
theorem nodes_add (c : ClosestNodes) (node : Node) :
    (c.add node).nodes =
      if c.nodes.any (·.id = node.id) then c.nodes
      else c.nodes.take (c.place node) ++ node :: c.nodes.drop (c.place node) := by
  unfold add
  split
  · rfl
  · rw [place, ← List.takeWhile_eq_take_findIdx_not, ← List.dropWhile_eq_drop_findIdx_not]

end Place

section Truncation

/-- Of what an element is inserted into, the elements behind the first `k` have no part in the first `k`. -/
private theorem take_insertion {α : Type} (p : α → Bool) (x : α) (xs : List α) (k : Nat) :
    ((xs.take k).takeWhile p ++ x :: (xs.take k).dropWhile p).take k =
      (xs.takeWhile p ++ x :: xs.dropWhile p).take k := by
  induction xs generalizing k with
  | nil => rw [List.take_nil]
  | cons y ys ih =>
    cases k with
    | zero => rfl
    | succ k =>
      by_cases hy : p y = true
      · simp [hy, ih k]
      · have hcut : (y :: ys.take k).take k = (y :: ys).take k := by
          rw [← List.take_succ_cons, List.take_take, Nat.min_eq_left (Nat.le_succ k)]
        simp [hy, hcut]

theorem eq_of_nodes {d : ClosestNodes} (htarget : c.target = d.target) (hnodes : c.nodes = d.nodes) : c = d := by
  cases c
  cases d
  rw [mk.injEq]
  exact ⟨htarget, hnodes⟩

theorem truncate_truncate (c : ClosestNodes) (k : Nat) : (c.truncate k).truncate k = c.truncate k := by
  rw [truncate, truncate, List.take_take, Nat.min_self]

/-- Of a set in order, a node that was cut off does not come back. -/
theorem Sorted.truncate_add_of_known (hsorted : c.Sorted) (hknown : ∃ known ∈ c.nodes, known.id = node.id)
    (hcut : ∀ known ∈ c.nodes.take k, known.id ≠ node.id) :
    ((c.truncate k).add node).truncate k = c.truncate k := by
  obtain ⟨known, hmem, hid⟩ := hknown
  obtain ⟨hfull, hcloser⟩ := closer_of_not_mem_take hsorted hmem fun hfirst => hcut known hfirst hid
  rw [hid] at hcloser
  let closer (other : Node) : Bool := decide (NodeId.CloserTo c.target other.id node.id)
  have hall : ∀ other ∈ c.nodes.take k, closer other = true :=
    fun other hother => decide_eq_true (hcloser other hother)
  have hlast : ((c.truncate k).add node).nodes =
      (c.nodes.take k).takeWhile closer ++ node :: (c.nodes.take k).dropWhile closer := nodes_add_of_new hcut
  rw [List.takeWhile_eq_self_iff.2 hall, List.dropWhile_eq_nil_iff.2 hall] at hlast
  refine eq_of_nodes ((c.truncate k).target_add node) ?_
  change ((c.truncate k).add node).nodes.take k = c.nodes.take k
  rw [hlast, List.take_left' hfull]

/-- Nodes that are cut off have no part in what is left after another is added. -/
theorem Sorted.truncate_add_truncate (hsorted : c.Sorted) (node : Node) (k : Nat) :
    ((c.truncate k).add node).truncate k = (c.add node).truncate k := by
  obtain ⟨known, hmem, hid⟩ | hcut := (c.truncate k).known_or_new node
  · have hknown : ∃ known ∈ c.nodes, known.id = node.id := ⟨known, List.mem_of_mem_take hmem, hid⟩
    rw [add_of_known hknown, add_of_known (c := c.truncate k) ⟨known, hmem, hid⟩, truncate_truncate]
  · obtain hknown | hnew := c.known_or_new node
    · rw [hsorted.truncate_add_of_known hknown hcut, add_of_known hknown]
    · refine eq_of_nodes (((c.truncate k).target_add node).trans (c.target_add node).symm) ?_
      change ((c.truncate k).add node).nodes.take k = (c.add node).nodes.take k
      rw [nodes_add_of_new hcut, nodes_add_of_new hnew]
      exact take_insertion _ node c.nodes k

/-- Cutting down after each node is the same as cutting down once at the end. -/
theorem Sorted.foldl_add_truncate (hsorted : c.Sorted) (nodes : List Node) (k : Nat) :
    nodes.foldl (fun c node => (c.add node).truncate k) (c.truncate k) = (c.addAll nodes).truncate k := by
  induction nodes generalizing c with
  | nil => rfl
  | cons first rest ih =>
    rw [List.foldl_cons, hsorted.truncate_add_truncate, ih (hsorted.add first)]
    rfl

end Truncation

section Sorting

/-- The nodes stand in the order of their distances to a target, read as numbers. -/
def Ranked (target : NodeId) (nodes : List Node) : Prop :=
  nodes.Pairwise fun node later => (node.id.xor target).toNat < (later.id.xor target).toNat

theorem ranked_iff {target : NodeId} :
    Ranked target nodes ↔ nodes.Pairwise fun node later => NodeId.CloserTo target node.id later.id :=
  ⟨fun hranked => hranked.imp NodeId.lt_iff_toNat_lt.2, fun hcloser => hcloser.imp NodeId.lt_iff_toNat_lt.1⟩

variable {target : NodeId}

/-- The nodes of a set that was empty are those that were the first of their id, in their only order. -/
theorem eq_nodes_addAll_empty_iff {ranked : List Node} :
    ranked = ((empty target).addAll nodes).nodes ↔
      Ranked target ranked ∧ ∀ node, node ∈ ranked ↔ nodes.find? (·.id = node.id) = some node := by
  have hsorted := pairwise_addAll_empty target nodes
  constructor
  · rintro rfl
    exact ⟨ranked_iff.2 hsorted, fun node => mem_addAll_empty_iff⟩
  · rintro ⟨hranked, hmem⟩
    exact (ranked_iff.1 hranked).eq_of_mem_iff hsorted fun node => (hmem node).trans mem_addAll_empty_iff.symm

theorem mem_ids_addAll_empty_iff {id : NodeId} :
    id ∈ ((empty target).addAll nodes).nodes.map Node.id ↔ id ∈ nodes.map Node.id := by
  constructor
  · intro hid
    obtain ⟨node, hmem, rfl⟩ := List.mem_map.1 hid
    exact List.mem_map_of_mem ((mem_or_mem_of_mem_addAll hmem).resolve_left List.not_mem_nil)
  · intro hid
    obtain ⟨node, hmem, rfl⟩ := List.mem_map.1 hid
    obtain ⟨known, hknown, hsame⟩ := exists_id_addAll (c := empty target) hmem
    exact List.mem_map.2 ⟨known, hknown, hsame⟩

/-- Nodes of different ids are sorted by being added, in whichever order. -/
theorem nodes_addAll_empty_of_perm {reordered : List Node} (hids : (nodes.map Node.id).Nodup)
    (hperm : reordered.Perm nodes) :
    ((empty target).addAll reordered).nodes = sortByDistance Node.id target nodes :=
  nodes_addAll_empty_eq (pairwise_sortByDistance hids) fun _ =>
    hperm.mem_iff.trans perm_sortByDistance.mem_iff.symm

theorem nodes_addAll_views {t : Testnet} (hids : (t.nodes.map StorageNode.id).Nodup) :
    ((empty target).addAll (t.nodes.map StorageNode.node)).nodes =
      (sortByDistance StorageNode.id target t.nodes).map StorageNode.node := by
  have hviews : ((t.nodes.map StorageNode.node).map Node.id).Nodup := by rwa [List.map_map]
  rw [nodes_addAll_empty_of_perm hviews (.refl _)]
  exact (map_sortByDistance fun _ => rfl).symm

theorem nodes_truncate_addAll_views {t : Testnet} (hids : (t.nodes.map StorageNode.id).Nodup) (k : Nat) :
    (((empty target).addAll (t.nodes.map StorageNode.node)).truncate k).nodes =
      (t.closest target k).map StorageNode.node := by
  rw [Testnet.closest, List.map_take, ← nodes_addAll_views hids]
  rfl

/-- Adding nodes that stand in their order already keeps them as they are. -/
theorem closestNodes_eq {t : Testnet} (hids : (t.nodes.map StorageNode.id).Nodup) :
    t.closestNodes target = (t.closest target Testnet.bucketSize).map StorageNode.node := by
  have hsorted := (pairwise_addAll_empty target (t.nodes.map StorageNode.node)).sublist
    (List.take_sublist Testnet.bucketSize _)
  have hclosest : ((empty target).addAll (t.nodes.map StorageNode.node)).nodes.take Testnet.bucketSize =
      (t.closest target Testnet.bucketSize).map StorageNode.node := nodes_truncate_addAll_views hids _
  rw [hclosest] at hsorted
  exact nodes_addAll_empty_eq hsorted fun _ => .rfl

end Sorting

/-- A set that was empty is in strict order after any changes, so it holds no id twice, and there is one
    place for a node whose id is new. If nodes were added only, it holds of each id the first, and cutting it
    down to the `k` closest after each is cutting it down at the end. The order in which nodes of different
    ids are added makes no difference: what is left of them is what comes first when all are sorted, as a
    network sorts its nodes. -/
theorem closest_selected (target : NodeId) (nodes : List Node) (k : Nat) :
    (∀ changes c, (empty target).changeAll changes = c →
      Ranked target c.nodes ∧ (c.nodes.map Node.id).Nodup ∧
      ∀ node, (∀ i, c.IsPlace node i ↔ i = c.place node) ∧ (c.add node).nodes =
        if c.nodes.any (·.id = node.id) then c.nodes
        else c.nodes.take (c.place node) ++ node :: c.nodes.drop (c.place node)) ∧
    (∀ ranked, ranked = ((empty target).addAll nodes).nodes ↔
      Ranked target ranked ∧ ∀ node, node ∈ ranked ↔ nodes.find? (·.id = node.id) = some node) ∧
    (∀ id, id ∈ ((empty target).addAll nodes).nodes.map Node.id ↔ id ∈ nodes.map Node.id) ∧
    nodes.foldl (fun c node => (c.add node).truncate k) (empty target) =
      ((empty target).addAll nodes).truncate k ∧
    ((nodes.map Node.id).Nodup →
      (∀ reordered, reordered.Perm nodes →
        ((empty target).addAll reordered).nodes = ((empty target).addAll nodes).nodes) ∧
      (((empty target).addAll nodes).truncate k).nodes = (sortByDistance Node.id target nodes).take k) ∧
    ∀ t : Testnet, (t.nodes.map StorageNode.id).Nodup →
      (((empty target).addAll (t.nodes.map StorageNode.node)).truncate k).nodes =
        (t.closest target k).map StorageNode.node ∧
      t.closestNodes target = (t.closest target Testnet.bucketSize).map StorageNode.node := by
  have hempty : (empty target).Sorted := .empty
  have hnone : (empty target).truncate k = empty target := by rw [truncate, empty, List.take_nil]
  have htruncated := hempty.foldl_add_truncate nodes k
  rw [hnone] at htruncated
  refine ⟨?changed, fun _ => eq_nodes_addAll_empty_iff, fun _ => mem_ids_addAll_empty_iff, htruncated,
    ?distinct, fun t hids => ⟨nodes_truncate_addAll_views hids k, closestNodes_eq hids⟩⟩
  case changed =>
    rintro changes _ rfl
    have hsorted := hempty.changeAll changes
    have hranked := ranked_iff.2 hsorted
    rw [target_changeAll] at hranked
    exact ⟨hranked, nodup_ids_of_pairwise hsorted, fun node => ⟨fun _ => hsorted.isPlace_iff, nodes_add _ node⟩⟩
  case distinct =>
    intro hids
    have hsort : ((empty target).addAll nodes).nodes = sortByDistance Node.id target nodes :=
      nodes_addAll_empty_of_perm hids (.refl nodes)
    refine ⟨fun reordered hperm => ?_, ?_⟩
    · rw [nodes_addAll_empty_of_perm hids hperm, hsort]
    · rw [truncate, hsort]

/-- Two storage nodes, of which the first is the farther one. -/
theorem closest_selected_of_two :
    let target : NodeId := ⟨Octets.ofPadded [1]⟩
    let far := StorageNode.create ⟨Octets.ofPadded [2]⟩ (Address.ofV4 10 0 0 1 6881) ⟨default, default⟩
    let near := StorageNode.create target (Address.ofV4 10 0 0 2 6881) ⟨default, default⟩
    let t : Testnet := ⟨[far, near]⟩
    ((empty target).addAll [far.node, near.node]).nodes = ((empty target).addAll [near.node, far.node]).nodes ∧
      (((empty target).addAll [far.node, near.node]).truncate 1).nodes = [near.node] ∧
      t.closestNodes target = [near.node, far.node] := by
  intro target far near t
  have hselected := closest_selected target [far.node, near.node] 1
  obtain ⟨hreordered, hnearest⟩ := hselected.2.2.2.2.1 (by decide)
  have hnetwork := hselected.2.2.2.2.2 t (by decide)
  refine ⟨(hreordered _ (.swap ..)).symm, hnearest.trans (by decide), hnetwork.2.trans (by decide)⟩

end DhtStore.ClosestNodes
