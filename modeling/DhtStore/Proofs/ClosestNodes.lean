import DhtStore.ClosestNodes
import DhtStore.Proofs.NodeId.Order
import Mathlib.Data.List.Induction
import Mathlib.Data.List.Nodup
import Mathlib.Data.List.Perm.Basic
import Mathlib.Data.List.Sort

namespace DhtStore

/-- Where keys differ, the element of a key is found. -/
theorem find?_key_eq_some_iff {α κ : Type} [DecidableEq κ] (key : α → κ) {xs : List α}
    (hnodup : (xs.map key).Nodup) {x : α} {k : κ} :
    xs.find? (key · = k) = some x ↔ x ∈ xs ∧ key x = k := by
  constructor
  · intro hfound
    exact ⟨List.mem_of_find?_eq_some hfound, by simpa using List.find?_some hfound⟩
  · rintro ⟨hmem, rfl⟩
    cases hfound : xs.find? (key · = key x) with
    | none => simpa using List.find?_eq_none.1 hfound x hmem
    | some found =>
      have hkey : key found = key x := by simpa using List.find?_some hfound
      rw [List.inj_on_of_nodup_map hnodup (List.mem_of_find?_eq_some hfound) hmem hkey]

namespace ClosestNodes

variable {c : ClosestNodes} {node : Node} {nodes : List Node}

theorem known_or_new (c : ClosestNodes) (node : Node) :
    (∃ known ∈ c.nodes, known.id = node.id) ∨ ∀ known ∈ c.nodes, known.id ≠ node.id := by
  by_cases hknown : ∃ known ∈ c.nodes, known.id = node.id
  · exact .inl hknown
  · exact .inr fun known hmem hid => hknown ⟨known, hmem, hid⟩

theorem nodes_add_of_new (hnew : ∀ known ∈ c.nodes, known.id ≠ node.id) :
    (c.add node).nodes =
      c.nodes.takeWhile (fun known => decide (NodeId.CloserTo c.target known.id node.id)) ++
        node :: c.nodes.dropWhile fun known => decide (NodeId.CloserTo c.target known.id node.id) := by
  have hfresh : c.nodes.any (·.id = node.id) = false := by simpa using hnew
  simp only [add, hfresh, Bool.false_eq_true, if_false]

theorem perm_nodes_add (hnew : ∀ known ∈ c.nodes, known.id ≠ node.id) :
    (c.add node).nodes.Perm (node :: c.nodes) := by
  rw [nodes_add_of_new hnew]
  refine List.perm_middle.trans (List.Perm.cons node ?_)
  rw [List.takeWhile_append_dropWhile]

theorem add_of_known (hknown : ∃ known ∈ c.nodes, known.id = node.id) : c.add node = c := by
  simp [add, hknown]

theorem exists_id_add (c : ClosestNodes) (node : Node) :
    ∃ known ∈ (c.add node).nodes, known.id = node.id := by
  obtain hknown | hnew := c.known_or_new node
  · rw [add_of_known hknown]
    exact hknown
  · exact ⟨node, mem_nodes_add.2 (.inr ⟨rfl, hnew⟩), rfl⟩

theorem nodup_ids_add (hnodup : (c.nodes.map Node.id).Nodup) (node : Node) :
    ((c.add node).nodes.map Node.id).Nodup := by
  obtain hknown | hnew := c.known_or_new node
  · rw [add_of_known hknown]
    exact hnodup
  · rw [((perm_nodes_add hnew).map Node.id).nodup_iff, List.map_cons, List.nodup_cons]
    refine ⟨fun hmem => ?_, hnodup⟩
    obtain ⟨known, hknown, hid⟩ := List.mem_map.1 hmem
    exact hnew known hknown hid

theorem mem_addAll_of_mem {other : Node} (hmem : other ∈ c.nodes) : other ∈ (c.addAll nodes).nodes := by
  induction nodes generalizing c with
  | nil => exact hmem
  | cons first rest ih => exact ih (mem_nodes_add.2 (.inl hmem))

theorem mem_or_mem_of_mem_addAll {other : Node} (hmem : other ∈ (c.addAll nodes).nodes) :
    other ∈ c.nodes ∨ other ∈ nodes := by
  induction nodes generalizing c with
  | nil => exact .inl hmem
  | cons first rest ih =>
    obtain hadded | hrest := ih hmem
    · obtain hold | ⟨rfl, _⟩ := mem_nodes_add.1 hadded
      · exact .inl hold
      · exact .inr (List.mem_cons_self ..)
    · exact .inr (List.mem_cons_of_mem _ hrest)

theorem exists_id_addAll (hmem : node ∈ nodes) : ∃ known ∈ (c.addAll nodes).nodes, known.id = node.id := by
  induction nodes generalizing c with
  | nil => cases hmem
  | cons first rest ih =>
    obtain rfl | hrest := List.mem_cons.1 hmem
    · obtain ⟨known, hknown, hid⟩ := c.exists_id_add node
      exact ⟨known, mem_addAll_of_mem (c := c.add node) hknown, hid⟩
    · exact ih hrest

/-- Of the nodes added one after the other, each is held unless an earlier node of its id is. -/
theorem mem_addAll_or (earlier : List Node) (node : Node) (later : List Node) :
    node ∈ (c.addAll (earlier ++ node :: later)).nodes ∨
      ∃ known, (known ∈ c.nodes ∨ known ∈ earlier) ∧
        known ∈ (c.addAll (earlier ++ node :: later)).nodes ∧ known.id = node.id := by
  have hsplit : c.addAll (earlier ++ node :: later) = ((c.addAll earlier).add node).addAll later := by
    rw [addAll, List.foldl_append, List.foldl_cons]
    rfl
  rw [hsplit]
  obtain ⟨known, hmem, hid⟩ | hnew := (c.addAll earlier).known_or_new node
  · have hkept : known ∈ ((c.addAll earlier).add node).nodes := mem_nodes_add.2 (.inl hmem)
    exact .inr ⟨known, mem_or_mem_of_mem_addAll hmem, mem_addAll_of_mem hkept, hid⟩
  · exact .inl (mem_addAll_of_mem (mem_nodes_add.2 (.inr ⟨rfl, hnew⟩)))

theorem nodup_ids_addAll (hnodup : (c.nodes.map Node.id).Nodup) (nodes : List Node) :
    ((c.addAll nodes).nodes.map Node.id).Nodup := by
  induction nodes generalizing c with
  | nil => exact hnodup
  | cons first rest ih => exact ih (nodup_ids_add hnodup first)

@[simp] theorem addAll_concat (c : ClosestNodes) (nodes : List Node) (node : Node) :
    c.addAll (nodes ++ [node]) = (c.addAll nodes).add node := List.foldl_concat ..

/-- A set that was empty at first holds of all nodes added those that are the first of their id. -/
theorem mem_addAll_empty_iff {target : NodeId} :
    node ∈ ((empty target).addAll nodes).nodes ↔ nodes.find? (·.id = node.id) = some node := by
  induction nodes using List.reverseRecOn with
  | nil => simp [addAll, empty]
  | append_singleton earlier last ih =>
    have hnew : (∀ known ∈ ((empty target).addAll earlier).nodes, known.id ≠ last.id) ↔
        ∀ other ∈ earlier, other.id ≠ last.id := by
      constructor
      · intro hnone other hother hid
        obtain ⟨known, hknown, hsame⟩ := exists_id_addAll (c := empty target) hother
        exact hnone known hknown (hsame.trans hid)
      · intro hnone known hknown
        obtain hempty | hearlier := mem_or_mem_of_mem_addAll hknown
        · cases hempty
        · exact hnone known hearlier
    rw [addAll_concat, mem_nodes_add, ih, hnew, List.find?_append]
    cases hfirst : earlier.find? (·.id = node.id) with
    | some first =>
      have hmem := List.mem_of_find?_eq_some hfirst
      have hid : first.id = node.id := by simpa using List.find?_some hfirst
      simp only [Option.some_or, or_iff_left_iff_imp]
      rintro ⟨rfl, hnone⟩
      exact absurd hid (hnone first hmem)
    | none =>
      have hnone : ∀ other ∈ earlier, other.id ≠ node.id := by simpa using hfirst
      simp only [reduceCtorEq, false_or, Option.none_or, List.find?_singleton, decide_eq_true_eq]
      constructor
      · rintro ⟨rfl, -⟩
        simp
      · intro hlast
        split at hlast
        · cases hlast
          exact ⟨rfl, hnone⟩
        · cases hlast

/-- Each node behind the first `k` of a sorted list is farther than all of these. -/
theorem closer_of_not_mem_take {target : NodeId} {k : Nat}
    (hsorted : nodes.Pairwise fun node later => NodeId.CloserTo target node.id later.id)
    (hnode : node ∈ nodes) (hbehind : node ∉ nodes.take k) :
    (nodes.take k).length = k ∧ ∀ other ∈ nodes.take k, NodeId.CloserTo target other.id node.id := by
  rw [← List.take_append_drop k nodes] at hsorted hnode
  have hrest := (List.mem_append.1 hnode).resolve_left hbehind
  have hmore : 0 < (nodes.drop k).length := List.length_pos_of_mem hrest
  rw [List.length_drop] at hmore
  refine ⟨by rw [List.length_take]; omega, fun other hother => ?_⟩
  exact (List.pairwise_append.1 hsorted).2.2 other hother node hrest

theorem nodup_ids_of_pairwise {target : NodeId}
    (hsorted : nodes.Pairwise fun node other => NodeId.CloserTo target node.id other.id) :
    (nodes.map Node.id).Nodup := by
  refine List.pairwise_map.2 (hsorted.imp ?_)
  rintro node other hcloser hid
  rw [hid] at hcloser
  exact NodeId.CloserTo.irrefl hcloser

/-- The nodes stand in the order of their distance to the target, no two at the same distance. -/
def Sorted (c : ClosestNodes) : Prop :=
  c.nodes.Pairwise fun node other => NodeId.CloserTo c.target node.id other.id

/-- In a sorted list, none of what is left behind the nodes closer than another is closer. -/
theorem not_closer_of_mem_dropWhile {target : NodeId}
    (hsorted : nodes.Pairwise fun node other => NodeId.CloserTo target node.id other.id) :
    ∀ later ∈ nodes.dropWhile (fun known => decide (NodeId.CloserTo target known.id node.id)),
      ¬ NodeId.CloserTo target later.id node.id := by
  induction nodes with
  | nil => simp
  | cons first rest ih =>
    obtain ⟨hfirst, hrest⟩ := List.pairwise_cons.1 hsorted
    by_cases hcloser : NodeId.CloserTo target first.id node.id
    · simpa [List.dropWhile_cons, hcloser] using ih hrest
    · rw [List.dropWhile_cons_of_neg (by simpa using hcloser), List.forall_mem_cons]
      exact ⟨hcloser, fun later hlater hnode => hcloser ((hfirst later hlater).trans hnode)⟩

namespace Sorted

theorem empty {target : NodeId} : (ClosestNodes.empty target).Sorted := .nil

theorem add (hsorted : c.Sorted) (node : Node) : (c.add node).Sorted := by
  obtain hknown | hnew := c.known_or_new node
  · rw [add_of_known hknown]
    exact hsorted
  · let closer (known : Node) : Bool := decide (NodeId.CloserTo c.target known.id node.id)
    have hfarther : ∀ later ∈ c.nodes.dropWhile closer, NodeId.CloserTo c.target node.id later.id :=
      fun later hlater => NodeId.CloserTo.of_not (hnew later (List.dropWhile_subset _ hlater))
        (not_closer_of_mem_dropWhile hsorted later hlater)
    have hsplit := hsorted
    unfold Sorted at hsplit ⊢
    rw [← List.takeWhile_append_dropWhile (p := closer) (l := c.nodes), List.pairwise_append] at hsplit
    obtain ⟨hbefore, hbehind, hacross⟩ := hsplit
    rw [ClosestNodes.target_add, nodes_add_of_new hnew]
    refine List.pairwise_append.2 ⟨hbefore, List.pairwise_cons.2 ⟨hfarther, hbehind⟩, ?_⟩
    intro known hmem
    have hcloser := List.all_eq_true.1 (List.all_takeWhile (p := closer) (l := c.nodes)) known hmem
    exact List.forall_mem_cons.2 ⟨of_decide_eq_true hcloser, hacross known hmem⟩

theorem addAll (hsorted : c.Sorted) (nodes : List Node) : (c.addAll nodes).Sorted := by
  induction nodes generalizing c with
  | nil => exact hsorted
  | cons first rest ih => exact ih (hsorted.add first)

end Sorted

theorem pairwise_addAll_empty (target : NodeId) (nodes : List Node) :
    ((empty target).addAll nodes).nodes.Pairwise fun node other =>
      NodeId.CloserTo target node.id other.id := by
  have hempty : (empty target).Sorted := .empty
  have hsorted := hempty.addAll nodes
  unfold Sorted at hsorted
  rwa [target_addAll] at hsorted

/-- Nodes of different ids come to stand in the one order of their distance, however they are added. -/
theorem nodes_addAll_empty_eq {target : NodeId} {ranked : List Node}
    (hranked : ranked.Pairwise fun node other => NodeId.CloserTo target node.id other.id)
    (hmem : ∀ node, node ∈ nodes ↔ node ∈ ranked) : ((empty target).addAll nodes).nodes = ranked := by
  have hids := nodup_ids_of_pairwise hranked
  have hsound {node : Node} (hnode : node ∈ ((empty target).addAll nodes).nodes) : node ∈ ranked := by
    obtain hempty | hadded := mem_or_mem_of_mem_addAll hnode
    · cases hempty
    · exact (hmem node).1 hadded
  refine (pairwise_addAll_empty target nodes).eq_of_mem_iff hranked fun node => ⟨hsound, fun hnode => ?_⟩
  obtain ⟨known, hknown, hid⟩ := exists_id_addAll (c := empty target) ((hmem node).2 hnode)
  rwa [← List.inj_on_of_nodup_map hids (hsound hknown) hnode hid]

end ClosestNodes

end DhtStore
