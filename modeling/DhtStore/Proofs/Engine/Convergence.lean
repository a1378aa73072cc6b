import DhtStore.Proofs.Engine.Knowledge
import Mathlib.Data.List.Sort

namespace DhtStore

open Iterative

variable {w : Width} {accepts : Node → Bool} {target : NodeId} {c : Course Lookup}

/-- An element of two lists in a row stands in the second, behind all of the first, or in the first. -/
theorem append_eq_append_cons {α : Type} {xs ys before after : List α} {x : α}
    (happend : xs ++ ys = before ++ x :: after) :
    (∃ mid, before = xs ++ mid ∧ ys = mid ++ x :: after) ∨ ∃ rest, xs = before ++ x :: rest := by
  obtain ⟨mid, hbefore, hys⟩ | ⟨mid, hxs, hcons⟩ := List.append_eq_append_iff.1 happend
  · exact .inl ⟨mid, hbefore, hys⟩
  · cases mid with
    | nil => exact .inl ⟨[], by simpa using hxs.symm, hcons.symm⟩
    | cons y rest =>
      obtain ⟨rfl, -⟩ := List.cons_eq_cons.1 hcons
      exact .inr ⟨rest, hxs⟩

namespace Iterative

/-- After asking, there is no room left or each of the `k` closest candidates was visited. -/
theorem visited_ask (hroom : (c.ask (Engine.iterative w)).inFlight.length < w.alpha) :
    ∀ node ∈ (c.ask (Engine.iterative w)).state.candidates.nodes.take w.k,
      node.address ∈ (c.ask (Engine.iterative w)).state.visited := by
  let fresh := (c.state.candidates.nodes.take w.k).filter (!c.state.isVisited ·)
  let wanted := fresh.take (w.alpha - c.inFlight.length)
  have hall : wanted = fresh := by
    change (c.inFlight ++ wanted).length < w.alpha at hroom
    rw [List.length_append, List.length_take] at hroom
    exact List.take_of_length_le (by omega)
  intro node hnode
  change node.address ∈ wanted.map Node.address ++ c.state.visited
  rw [hall]
  by_cases hvisited : node.address ∈ c.state.visited
  · exact List.mem_append_right _ hvisited
  · refine List.mem_append_left _ (List.mem_map_of_mem (List.mem_filter.2 ⟨hnode, ?_⟩))
    rw [c.state.isVisited_eq_false_iff.2 hvisited]
    rfl

theorem visited_of_reaches (hreach : (Engine.iterative w).Reaches accepts target c)
    (hroom : c.inFlight.length < w.alpha) :
    ∀ node ∈ c.state.candidates.nodes.take w.k, node.address ∈ c.state.visited := by
  cases hreach with
  | start =>
    intro node hnode
    cases List.mem_of_mem_take hnode
  | seed nodes _ => exact visited_ask hroom
  | settle report _ _ => exact visited_ask hroom

/-- Once nothing is in flight, each of the `k` closest nodes that a lookup knows was asked. -/
theorem asked_of_quiet (halpha : 0 < w.alpha) (hreach : (Engine.iterative w).Reaches accepts target c)
    (hquiet : c.inFlight = []) :
    ∀ node ∈ c.state.candidates.nodes.take w.k, node.address ∈ c.asked.map Node.address := by
  intro node hnode
  have hvisited := visited_of_reaches hreach (hquiet ▸ halpha) node hnode
  exact (hreach.addressesKept.visited _).1 hvisited

theorem sorted_of_reaches (hreach : (Engine.iterative w).Reaches accepts target c) :
    c.state.candidates.nodes.Pairwise fun node later => NodeId.CloserTo target node.id later.id := by
  have hboth : c.state.candidates.target = target ∧ c.state.candidates.Sorted := by
    refine hreach.invariant (I := fun c => c.state.candidates.target = target ∧ c.state.candidates.Sorted)
      ⟨rfl, .empty⟩ ?_ ?_ ?_
    · exact fun _ hsorted => hsorted
    · intro c nodes ⟨htarget, hsorted⟩
      exact ⟨(ClosestNodes.target_addAll ..).trans htarget, hsorted.addAll _⟩
    · intro c node report others _ ⟨htarget, hsorted⟩
      change ((c.state.respond report.responder).candidates.addAll _).target = target ∧
        ((c.state.respond report.responder).candidates.addAll _).Sorted
      rw [Lookup.candidates_respond]
      exact ⟨(ClosestNodes.target_addAll ..).trans htarget, hsorted.addAll _⟩
  have hsorted := hboth.2
  unfold ClosestNodes.Sorted at hsorted
  rwa [hboth.1] at hsorted

/-- What a lookup knows of the nodes that it heard of, in the order in which it did: an accepted node is
    known unless its address was asked or a node of its id was known before it. -/
structure Placed (accepts : Node → Bool) (c : Course Lookup) (heard : List Node) : Prop where
  candidates : ∀ known ∈ c.state.candidates.nodes, known ∈ heard
  node : ∀ before node after, heard = before ++ node :: after → accepts node = true →
    node.address ∈ c.asked.map Node.address ∨ node ∈ c.state.candidates.nodes ∨
      ∃ known ∈ before, known ∈ c.state.candidates.nodes ∧ known.id = node.id

namespace Placed

variable {heard : List Node}

theorem start : Placed accepts { state := (Engine.iterative w).start target } [] where
  candidates _ hmem := by cases hmem
  node before node after hheard := by simp at hheard

theorem ask (hplaced : Placed accepts c heard) : Placed accepts (c.ask (Engine.iterative w)) heard where
  candidates := hplaced.candidates
  node before node after hheard haccepts := by
    refine (hplaced.node before node after hheard haccepts).imp_left fun hasked => ?_
    rw [Course.asked_ask, List.map_append]
    exact List.mem_append_left _ hasked

/-- Nodes that are heard of next are placed behind those known, whatever of them is passed over because its
    address was asked. -/
theorem hear (hplaced : Placed accepts c heard) {taken : Course Lookup} (keeps : Node → Bool)
    (nodes : List Node) (hasked : taken.asked = c.asked)
    (hkeeps : ∀ node, accepts node = true →
      node.address ∈ c.asked.map Node.address ∨ keeps node = true)
    (hcandidates : taken.state.candidates = c.state.candidates.addAll (nodes.filter keeps)) :
    Placed accepts taken (heard ++ nodes) where
  candidates known hknown := by
    rw [hcandidates] at hknown
    refine List.mem_append.2 ((ClosestNodes.mem_or_mem_of_mem_addAll hknown).imp ?_ ?_)
    · exact hplaced.candidates known
    · exact fun hnew => (List.mem_filter.1 hnew).1
  node before node after hheard haccepts := by
    rw [hasked, hcandidates]
    obtain ⟨mid, rfl, hnodes⟩ | ⟨rest, hold⟩ := append_eq_append_cons hheard
    · obtain hvisited | hkeep := hkeeps node haccepts
      · exact .inl hvisited
      · have hfilter : nodes.filter keeps = mid.filter keeps ++ node :: after.filter keeps := by
          rw [hnodes, List.filter_append, List.filter_cons_of_pos hkeep]
        rw [hfilter]
        refine .inr ((ClosestNodes.mem_addAll_or _ node _).imp_right ?_)
        rintro ⟨known, hsource, hknown, hid⟩
        refine ⟨known, List.mem_append.2 (hsource.imp ?_ ?_), hknown, hid⟩
        · exact hplaced.candidates known
        · exact fun hmid => (List.mem_filter.1 hmid).1
    · refine (hplaced.node before node rest hold haccepts).imp_right (Or.imp ?_ ?_)
      · exact ClosestNodes.mem_addAll_of_mem
      · rintro ⟨known, hbefore, hknown, hid⟩
        exact ⟨known, hbefore, ClosestNodes.mem_addAll_of_mem hknown, hid⟩

theorem seed (hplaced : Placed accepts c heard) (nodes : List Node) :
    Placed accepts (c.seed (Engine.iterative w) accepts nodes) (heard ++ nodes) :=
  hplaced.hear accepts nodes rfl (fun _ haccepts => .inr haccepts) rfl

theorem settle (hkept : AddressesKept c) (hplaced : Placed accepts c heard) (node : Node)
    (report : QueryReport) (others : List Node) :
    Placed accepts (c.settle (Engine.iterative w) accepts node report others) (heard ++ report.closer) := by
  refine hplaced.hear (fun named => !c.state.isVisited named && accepts named) report.closer rfl
    (fun named haccepts => ?_) ?_
  · rw [← hkept.visited]
    by_cases hvisited : named.address ∈ c.state.visited
    · exact .inl hvisited
    · right
      rw [c.state.isVisited_eq_false_iff.2 hvisited, haccepts]
      rfl
  · change (c.state.respond report.responder).candidates.addAll _ = _
    rw [Lookup.candidates_respond]

end Placed

theorem placed_of_hears {heard : List Node} (hhears : (Engine.iterative w).Hears accepts target c heard) :
    Placed accepts c heard := by
  induction hhears with
  | start => exact .start
  | seed nodes _ ih => exact (ih.seed nodes).ask
  | settle report hhears _ ih => exact (ih.settle hhears.reaches.addressesKept _ report _).ask

/-- How a lookup stands that waits for nothing: each of the `k` closest nodes that it knows was asked, and
    nothing that it heard of has yet to be. -/
structure Converged (w : Width) (accepts : Node → Bool) (target : NodeId) (heard : List Node)
    (c : Course Lookup) : Prop where
  known : ∀ node ∈ c.state.candidates.nodes, node ∈ heard ∧ accepts node = true
  sorted : c.state.candidates.nodes.Pairwise fun node later => NodeId.CloserTo target node.id later.id
  closest : ∀ node ∈ c.state.candidates.nodes.take w.k, node.address ∈ c.asked.map Node.address
  /-- A node was asked, or an earlier one of its id is known, or enough that are closer are. -/
  settled : ∀ before node after, heard = before ++ node :: after → accepts node = true →
    node.address ∈ c.asked.map Node.address ∨
      (∃ known ∈ before, known ∈ c.state.candidates.nodes ∧ known.id = node.id) ∨
      w.k ≤ (c.state.candidates.nodes.filter fun known => NodeId.CloserTo target known.id node.id).length

theorem converged_of_hears {heard : List Node} (halpha : 0 < w.alpha)
    (hhears : (Engine.iterative w).Hears accepts target c heard) (hquiet : c.inFlight = []) :
    Converged w accepts target heard c := by
  have hreach := hhears.reaches
  have hsorted := sorted_of_reaches hreach
  have hclosest := asked_of_quiet halpha hreach hquiet
  have hplaced := placed_of_hears hhears
  refine ⟨fun node hnode => ⟨hplaced.candidates node hnode, (hreach.recorded.candidates node hnode).1⟩,
    hsorted, hclosest, fun before node after hheard haccepts => ?_⟩
  obtain hasked | hcandidate | hknown := hplaced.node before node after hheard haccepts
  · exact .inl hasked
  · by_cases hfirst : node ∈ c.state.candidates.nodes.take w.k
    · exact .inl (hclosest node hfirst)
    · obtain ⟨hfull, hcloser⟩ := ClosestNodes.closer_of_not_mem_take hsorted hcandidate hfirst
      refine .inr (.inr ?_)
      calc w.k = (c.state.candidates.nodes.take w.k).length := hfull.symm
        _ = ((c.state.candidates.nodes.take w.k).filter fun known =>
              NodeId.CloserTo target known.id node.id).length := by
          rw [List.filter_eq_self.2 fun other hother => decide_eq_true (hcloser other hother)]
        _ ≤ _ := ((List.take_sublist _ _).filter _).length_le
  · exact .inr (.inl hknown)

end Iterative

/-- An element among the first of a list is among the first of each part of it that holds the element. -/
theorem mem_take_of_sublist {α : Type} {xs ys : List α} {x : α} {k : Nat} (hsublist : xs.Sublist ys)
    (hnodup : ys.Nodup) (hx : x ∈ xs) (hmem : x ∈ ys.take k) : x ∈ xs.take k := by
  induction hsublist generalizing k with
  | slnil => cases hx
  | @cons xs ys y hsublist ih =>
    obtain ⟨hnew, hys⟩ := List.nodup_cons.1 hnodup
    cases k with
    | zero => cases hmem
    | succ k =>
      obtain rfl | hlater := List.mem_cons.1 hmem
      · exact absurd (hsublist.subset hx) hnew
      · exact List.take_subset_take_left xs (Nat.le_succ k) (ih hys hx hlater)
  | @cons_cons xs ys y hsublist ih =>
    obtain ⟨hnew, hys⟩ := List.nodup_cons.1 hnodup
    cases k with
    | zero => cases hmem
    | succ k =>
      obtain rfl | hrest := List.mem_cons.1 hx
      · exact List.mem_cons_self ..
      · obtain rfl | hlater := List.mem_cons.1 hmem
        · exact absurd (hsublist.subset hrest) hnew
        · exact List.mem_cons_of_mem _ (ih hys hrest hlater)

/-- A node among the closest of some nodes is among the closest of any of them. -/
theorem mem_take_of_sorted {xs ys : List Node} {node : Node} {k : Nat}
    (hxs : xs.Pairwise fun node later => NodeId.CloserTo target node.id later.id)
    (hys : ys.Pairwise fun node later => NodeId.CloserTo target node.id later.id)
    (hsubset : xs ⊆ ys) (hnode : node ∈ xs) (hmem : node ∈ ys.take k) : node ∈ xs.take k := by
  have hsubperm := List.subperm_of_subset hxs.nodup hsubset
  exact mem_take_of_sublist (List.sublist_of_subperm_of_pairwise hsubperm hxs hys) hys.nodup hnode hmem

end DhtStore
