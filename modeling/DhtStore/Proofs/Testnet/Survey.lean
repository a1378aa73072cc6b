import DhtStore.Proofs.Engine.Bound
import DhtStore.Proofs.Testnet.Lookup

namespace DhtStore

open Testnet

variable {ρ : Type} {w : Iterative.Width} {t : Testnet} {n : StorageNode} {target : NodeId}

/-- The first of a list are the first of each part of it that holds them all. -/
theorem take_eq_of_sublist {α : Type} {xs ys : List α} {k : Nat} (hsublist : xs.Sublist ys) (hnodup : ys.Nodup)
    (hfirst : ∀ x ∈ ys.take k, x ∈ xs) : xs.take k = ys.take k := by
  induction hsublist generalizing k with
  | slnil => rfl
  | @cons xs ys y hsublist ih =>
    obtain ⟨hnew, -⟩ := List.nodup_cons.1 hnodup
    cases k with
    | zero => rfl
    | succ k => exact absurd (hsublist.subset (hfirst y (List.mem_cons_self ..))) hnew
  | @cons_cons xs ys y hsublist ih =>
    obtain ⟨hnew, hys⟩ := List.nodup_cons.1 hnodup
    cases k with
    | zero => rfl
    | succ k =>
      refine congrArg (y :: ·) (ih hys fun x hx => ?_)
      obtain rfl | hrest := List.mem_cons.1 (hfirst x (List.mem_cons_of_mem _ hx))
      · exact absurd (List.mem_of_mem_take hx) hnew
      · exact hrest

/-- The token that a node gives the client. -/
def StorageNode.token (n : StorageNode) : WriteToken := n.secrets.generate clientAddress

/-- The node as its replies vouch for it: with its token. -/
def StorageNode.vouched (n : StorageNode) : Node := { n.node with token := some n.token }

namespace Testnet

/-- The nodes that a discovery for a target asks: those that every lookup begins with, and those closest to
    the target. -/
def surveyed (t : Testnet) (target : NodeId) : List StorageNode :=
  t.nodes.filter fun n =>
    (t.nodes.take bootstrapSize ++ t.closest target bucketSize).any (·.address = n.address)

theorem mem_surveyed (hformed : t.WellFormed) :
    n ∈ t.surveyed target ↔ n ∈ t.nodes.take bootstrapSize ∨ n ∈ t.closest target bucketSize := by
  rw [← List.mem_append, surveyed, List.mem_filter, List.any_eq_true]
  constructor
  · rintro ⟨hn, m, hm, haddress⟩
    have hmem : m ∈ t.nodes := by
      obtain hfirst | hclosest := List.mem_append.1 hm
      · exact List.mem_of_mem_take hfirst
      · exact mem_of_mem_closest hclosest
    rwa [← eq_of_address_eq hformed hmem hn (of_decide_eq_true haddress)]
  · intro hn
    refine ⟨?_, n, hn, decide_eq_true rfl⟩
    obtain hfirst | hclosest := List.mem_append.1 hn
    · exact List.mem_of_mem_take hfirst
    · exact mem_of_mem_closest hclosest

theorem mem_of_mem_surveyed (hn : n ∈ t.surveyed target) : n ∈ t.nodes := (List.mem_filter.1 hn).1

theorem surveyed_map {f : StorageNode → StorageNode} (hid : ∀ n, (f n).id = n.id)
    (haddress : ∀ n, (f n).address = n.address) :
    (⟨t.nodes.map f⟩ : Testnet).surveyed target = (t.surveyed target).map f := by
  simp only [surveyed, closest_map hid, ← List.map_take, ← List.map_append, List.filter_map, Function.comp_def,
    List.any_map, haddress]

theorem nodup_ids_surveyed (hformed : t.WellFormed) : ((t.surveyed target).map StorageNode.id).Nodup :=
  hformed.ids.sublist (List.filter_sublist.map StorageNode.id)

/-- The nodes closest to a target of those surveyed are those closest of all. -/
theorem take_sortByDistance_surveyed (hformed : t.WellFormed) :
    (sortByDistance StorageNode.id target (t.surveyed target)).take bucketSize =
      t.closest target bucketSize := by
  have hsubperm : (sortByDistance StorageNode.id target (t.surveyed target)).Subperm
      (sortByDistance StorageNode.id target t.nodes) :=
    perm_sortByDistance.subperm.trans
      (List.filter_sublist.subperm.trans perm_sortByDistance.symm.subperm)
  have hsublist := List.sublist_of_subperm_of_pairwise hsubperm
    (pairwise_sortByDistance (nodup_ids_surveyed hformed)) (pairwise_sortByDistance hformed.ids)
  have hnodup : (sortByDistance StorageNode.id target t.nodes).Nodup :=
    perm_sortByDistance.nodup_iff.2 hformed.ids.of_map
  refine take_eq_of_sublist hsublist hnodup fun n hn => ?_
  exact perm_sortByDistance.mem_iff.2 ((mem_surveyed hformed).2 (.inr hn))

end Testnet

/-- A lookup that is wide enough asks all nodes that it begins with at once. -/
theorem Iterative.mem_next_of_seed {accepts : Node → Bool} {nodes : List Node} {node : Node}
    (hids : (nodes.map Node.id).Nodup) (halpha : nodes.length ≤ w.alpha) (hk : nodes.length ≤ w.k)
    (hnode : node ∈ nodes) (haccepts : accepts node = true) :
    node ∈ ((Engine.iterative w).next 0
      ((Engine.iterative w).seed accepts nodes ((Engine.iterative w).start target))).1 := by
  let candidates := (ClosestNodes.empty target).addAll (nodes.filter accepts)
  have hfiltered : ((nodes.filter accepts).map Node.id).Nodup :=
    hids.sublist (List.filter_sublist.map Node.id)
  have hcandidate : node ∈ candidates.nodes :=
    ClosestNodes.mem_addAll_empty_iff.2
      ((find?_key_eq_some_iff Node.id hfiltered).2 ⟨List.mem_filter.2 ⟨hnode, haccepts⟩, rfl⟩)
  have hlength : candidates.nodes.length ≤ nodes.length := by
    have hempty : ((ClosestNodes.empty target).nodes.map Node.id).Nodup := .nil
    have hnodup : candidates.nodes.Nodup := (ClosestNodes.nodup_ids_addAll hempty _).of_map
    refine (List.subperm_of_subset hnodup fun known hknown => ?_).length_le
    obtain hempty | hnew := ClosestNodes.mem_or_mem_of_mem_addAll hknown
    · cases hempty
    · exact (List.mem_filter.1 hnew).1
  change node ∈ ((candidates.nodes.take w.k).filter fun _ => true).take w.alpha
  rw [List.take_of_length_le (hlength.trans hk), List.filter_true,
    List.take_of_length_le (hlength.trans halpha)]
  exact hcandidate

namespace Search

/-- A search across a network whose nodes all reply to gets, which asks all nodes that it begins with at
    once. -/
structure Spans (s : Search Testnet Iterative.Lookup) (w : Iterative.Width) (t : Testnet) : Prop
    extends s.Crosses w t where
  wide : bootstrapSize ≤ w.alpha
  replies : ∀ n ∈ t.nodes, n.behavior.repliesToGets = true

/-- What a discovery has found out about a network. -/
structure Covered (s : Search Testnet Iterative.Lookup) (t : Testnet)
    (last : Discovery Testnet Iterative.Lookup ρ) : Prop where
  asked : ((s.transport.queries t last.history).map Query.node).Perm
    ((t.surveyed s.target).map StorageNode.node)
  called : last.history.called = last.history.asked
  responders : last.engine.responders.nodes =
    (sortByDistance StorageNode.id s.target (t.surveyed s.target)).map StorageNode.vouched
  stats : last.engine.stats = ⟨(t.surveyed s.target).length, (t.surveyed s.target).length⟩
  network : last.network.views = t.views ∧ last.network.WellFormed

variable {s : Search Testnet Iterative.Lookup} {read : Reader ρ} {init state : ρ} {start : Instant}
  {last : Discovery Testnet Iterative.Lookup ρ} {c : Course Iterative.Lookup} {processed : List Query}

/-- The nodes that a discovery begins with are among those that it asks. -/
theorem mem_asked_of_first (hspans : s.Spans w t) (hstalled : s.Stalled t last c processed)
    (hn : n ∈ t.nodes.take bootstrapSize) : n.node ∈ c.asked := by
  have hformed := hspans.formed
  have hfirst := hstalled.pursues.first_subset_asked
  rw [hspans.engine, hspans.transport] at hfirst
  have hids : (t.startingNodes.map Node.id).Nodup := by
    have hsublist := (List.take_sublist bootstrapSize t.nodes).map StorageNode.id
    simpa [startingNodes, Function.comp_def, StorageNode.node] using hformed.ids.sublist hsublist
  have hfew : t.startingNodes.length ≤ bootstrapSize := by simp [startingNodes]
  have hroom : bootstrapSize ≤ w.k := Nat.le_trans (by decide) hspans.k
  exact hfirst (Iterative.mem_next_of_seed hids (hfew.trans hspans.wide) (hfew.trans hroom)
    (List.mem_map_of_mem hn) rfl)

theorem mem_asked_iff (hspans : s.Spans w t)
    (hdiscover : s.discover read init start t = (.exhausted state, last))
    (hstalled : s.Stalled t last c processed) {node : Node} :
    node ∈ c.asked ↔ ∃ n ∈ t.surveyed s.target, n.node = node := by
  have hformed := hspans.formed
  have hcrosses := hspans.toCrosses
  have hsurveys := hstalled.surveys hcrosses hdiscover
  have hreach := hstalled.pursues.reaches
  rw [hcrosses.engine] at hreach
  have hcandidates := (Iterative.idsKept_of_reaches hreach).asked
  constructor
  · intro hasked
    obtain ⟨-, hseed | ⟨entry, hentry, hnamed⟩⟩ :=
      hsurveys.recorded.candidates node (hcandidates node hasked)
    · rw [hsurveys.seeds] at hseed
      obtain ⟨n, hn, rfl⟩ := List.mem_map.1 hseed
      exact ⟨n, (mem_surveyed hformed).2 (.inl hn), rfl⟩
    · obtain ⟨-, n, hn, rfl⟩ := (hsurveys.closer entry hentry node).1 hnamed
      exact ⟨n, (mem_surveyed hformed).2 (.inr hn), rfl⟩
  · rintro ⟨n, hn, rfl⟩
    obtain hfirst | hclosest := (mem_surveyed hformed).1 hn
    · exact mem_asked_of_first hspans hstalled hfirst
    · have hsome : ∃ b ∈ t.nodes.take bootstrapSize, b.behavior.repliesToGets = true := by
        have hnodes := List.ne_nil_of_mem (mem_of_mem_closest hclosest)
        obtain ⟨b, rest, hcons⟩ := List.exists_cons_of_ne_nil hnodes
        refine ⟨b, by simp [hcons, bootstrapSize], hspans.replies b ?_⟩
        rw [hcons]
        exact List.mem_cons_self ..
      obtain ⟨entry, hentry, hnamed⟩ := hsurveys.exists_named hcrosses hsome hclosest
      obtain ⟨q, hq, haddress⟩ := hsurveys.asked_of_named hcrosses hclosest hentry hnamed
      have hasked : q.node ∈ c.asked := by
        rw [hstalled.asked]
        exact List.mem_map_of_mem hq
      obtain ⟨m, hm, hnode⟩ := hsurveys.exists_node (hcandidates _ hasked)
      have hsame : m.address = n.address := (congrArg Node.address hnode).trans haddress
      rwa [← eq_of_address_eq hformed hm (mem_of_mem_closest hclosest) hsame, hnode]

/-- Each node surveyed is asked once. -/
theorem asked_perm_surveyed (hspans : s.Spans w t)
    (hdiscover : s.discover read init start t = (.exhausted state, last))
    (hstalled : s.Stalled t last c processed) :
    c.asked.Perm ((t.surveyed s.target).map StorageNode.node) := by
  have hreach := hstalled.pursues.reaches
  rw [hspans.engine] at hreach
  have hnodes : ((t.surveyed s.target).map StorageNode.node).Nodup := by
    refine List.Nodup.of_map Node.id ?_
    simpa [Function.comp_def, StorageNode.node] using nodup_ids_surveyed hspans.formed
  refine (List.perm_ext_iff_of_nodup (Iterative.idsKept_of_reaches hreach).ids.of_map hnodes).2 ?_
  intro node
  rw [mem_asked_iff hspans hdiscover hstalled, List.mem_map]

/-- Each query is answered by the node that was asked, which vouches for itself. -/
theorem exists_surveyed_of_mem_queries (hspans : s.Spans w t)
    (hdiscover : s.discover read init start t = (.exhausted state, last)) :
    ∀ q ∈ s.transport.queries t last.history, ∃ n ∈ t.surveyed s.target, q.node = n.node ∧
      q.delivery = .after 0 (.ok (n.view.answer clientAddress s.request (t.closestNodes s.target))) ∧
      q.responder? s.timeout = some n.vouched := by
  intro q hq
  obtain ⟨c, processed, hstalled⟩ := stalled_of_exhausted hdiscover
  have hasked : q.node ∈ c.asked := by
    rw [hstalled.asked]
    exact List.mem_map_of_mem hq
  obtain ⟨n, hn, hnode⟩ := (mem_asked_iff hspans hdiscover hstalled).1 hasked
  have hin : n ∈ t.nodes := mem_of_mem_surveyed hn
  have hanswer : q.delivery =
      .after 0 (.ok (n.view.answer clientAddress s.request (t.closestNodes s.target))) := by
    refine (delivery_of_mem_queries hspans.toCrosses hdiscover q hq).2.trans ?_
    rw [← hnode]
    exact (answer_eq_ok_iff hspans.formed).2 ⟨n, hin, rfl, hspans.replies n hin, rfl, rfl⟩
  refine ⟨n, hn, hnode.symm, hanswer, ?_⟩
  have hreply := Query.reply?_eq_some_iff.2 ⟨0, hanswer, Nat.zero_le s.timeout⟩
  simp only [Query.responder?, Query.report, hreply, StorageNode.report_answer, ← hnode]
  rfl

/-- Each node surveyed answers a query, and vouches for itself. -/
theorem exists_query_of_mem_surveyed (hspans : s.Spans w t)
    (hdiscover : s.discover read init start t = (.exhausted state, last)) (hn : n ∈ t.surveyed s.target) :
    ∃ q ∈ s.transport.queries t last.history, q.node = n.node ∧
      q.delivery = .after 0 (.ok (n.view.answer clientAddress s.request (t.closestNodes s.target))) ∧
      q.responder? s.timeout = some n.vouched := by
  have hformed := hspans.formed
  obtain ⟨c, processed, hstalled⟩ := stalled_of_exhausted hdiscover
  have hasked : n.node ∈ c.asked := (mem_asked_iff hspans hdiscover hstalled).2 ⟨n, hn, rfl⟩
  rw [hstalled.asked] at hasked
  obtain ⟨q, hq, hnode⟩ := List.mem_map.1 hasked
  obtain ⟨m, hm, hother, hanswer, hresponder⟩ := exists_surveyed_of_mem_queries hspans hdiscover q hq
  have hid : m.id = n.id := congrArg Node.id (hother.symm.trans hnode)
  obtain rfl := eq_of_id_eq hformed (mem_of_mem_surveyed hm) (mem_of_mem_surveyed hn) hid
  exact ⟨q, hq, hnode, hanswer, hresponder⟩

theorem responders_of_exhausted (hspans : s.Spans w t)
    (hdiscover : s.discover read init start t = (.exhausted state, last)) :
    last.engine.responders.nodes =
      (sortByDistance StorageNode.id s.target (t.surveyed s.target)).map StorageNode.vouched := by
  obtain ⟨c, processed, hstalled⟩ := stalled_of_exhausted hdiscover
  have hreach := hstalled.pursues.reaches
  rw [hspans.engine] at hreach
  rw [← hstalled.state, Iterative.responders_of_reaches hreach, hstalled.reports, List.filterMap_map]
  refine ClosestNodes.nodes_addAll_empty_eq
    (List.pairwise_map.2 (pairwise_sortByDistance (nodup_ids_surveyed hspans.formed))) fun node => ?_
  rw [List.mem_filterMap, List.mem_map]
  constructor
  · rintro ⟨q, hq, hresponder⟩
    obtain ⟨n, hn, -, -, hown⟩ :=
      exists_surveyed_of_mem_queries hspans hdiscover q (hstalled.perm.mem_iff.1 hq)
    exact ⟨n, perm_sortByDistance.mem_iff.2 hn, Option.some_inj.1 (hown.symm.trans hresponder)⟩
  · rintro ⟨n, hn, rfl⟩
    obtain ⟨q, hq, -, -, hresponder⟩ :=
      exists_query_of_mem_surveyed hspans hdiscover (perm_sortByDistance.mem_iff.1 hn)
    exact ⟨q, hstalled.perm.mem_iff.2 hq, hresponder⟩

theorem stats_of_exhausted (hspans : s.Spans w t)
    (hdiscover : s.discover read init start t = (.exhausted state, last)) :
    last.engine.stats = ⟨(t.surveyed s.target).length, (t.surveyed s.target).length⟩ := by
  obtain ⟨c, processed, hstalled⟩ := stalled_of_exhausted hdiscover
  have hreach := hstalled.pursues.reaches
  rw [hspans.engine] at hreach
  have hasked : c.asked.length = (t.surveyed s.target).length := by
    simpa using (asked_perm_surveyed hspans hdiscover hstalled).length_eq
  have htried : c.state.stats.tried = (t.surveyed s.target).length :=
    hreach.addressesKept.tried.trans hasked
  have hresponses : c.state.stats.responses = (t.surveyed s.target).length := by
    have hlength : processed.length = c.asked.length := by
      rw [hstalled.asked, List.length_map, hstalled.perm.length_eq]
    rw [hreach.recorded.responses, hstalled.reports, List.filterMap_map, ← hasked, ← hlength]
    refine List.filterMap_length_eq_length.2 fun q hq => ?_
    obtain ⟨n, -, -, -, hresponder⟩ :=
      exists_surveyed_of_mem_queries hspans hdiscover q (hstalled.perm.mem_iff.1 hq)
    exact Option.isSome_of_eq_some hresponder
  rw [← hstalled.state, ← htried]
  exact congrArg (LookupStats.mk c.state.stats.tried) (hresponses.trans htried.symm)

/-- A discovery that is exhausted has covered its part of the network. -/
theorem covered_of_exhausted (hspans : s.Spans w t)
    (hdiscover : s.discover read init start t = (.exhausted state, last)) : s.Covered t last where
  asked := by
    obtain ⟨c, processed, hstalled⟩ := stalled_of_exhausted hdiscover
    exact hstalled.asked ▸ asked_perm_surveyed hspans hdiscover hstalled
  called := (exhausted_spec hdiscover).1.called
  responders := responders_of_exhausted hspans hdiscover
  stats := stats_of_exhausted hspans hdiscover
  network := by
    have hafter := (kept_of_discover hspans.toCrosses hdiscover).1
    rwa [(exhausted_spec hdiscover).1.replayed] at hafter

/-- The addresses that were asked are those of the nodes surveyed, each once. -/
theorem Covered.addresses (hcovered : s.Covered t last) :
    (last.history.gets.map fun sent => sent.2.1).Perm
      ((t.surveyed s.target).map StorageNode.address) := by
  have haddresses := hcovered.asked.map Node.address
  rwa [History.map_node_queries, ← hcovered.called, ← History.map_address_gets, List.map_map] at haddresses

end Search

end DhtStore
