import DhtStore.Proofs.Discovery.Processing
import DhtStore.Proofs.Engine.Convergence
import DhtStore.Proofs.Testnet.Answers

namespace DhtStore

open Testnet

variable {ρ : Type} {w : Iterative.Width} {t : Testnet}

/-- A node that is among the closest of a network is among the closest of each part of it. -/
theorem Testnet.WellFormed.mem_take (hformed : t.WellFormed) {target : NodeId} {nodes : List Node}
    (hsorted : nodes.Pairwise fun node later => NodeId.CloserTo target node.id later.id)
    (hreal : ∀ node ∈ nodes, ∃ n ∈ t.nodes, n.node = node) {n : StorageNode} {count : Nat}
    (hn : n ∈ t.closest target count) (hmem : n.node ∈ nodes) : n.node ∈ nodes.take count := by
  let ranked := (sortByDistance StorageNode.id target t.nodes).map StorageNode.node
  have hranked : ranked.Pairwise fun node later => NodeId.CloserTo target node.id later.id :=
    List.pairwise_map.2 (pairwise_sortByDistance hformed.ids)
  have hsubset : nodes ⊆ ranked := by
    intro node hnode
    obtain ⟨m, hm, rfl⟩ := hreal node hnode
    exact List.mem_map_of_mem (perm_sortByDistance.mem_iff.2 hm)
  have hfirst : n.node ∈ ranked.take count := by
    rw [← List.map_take]
    exact List.mem_map_of_mem hn
  exact mem_take_of_sorted hsorted hranked hsubset hmem hfirst

namespace Search

/-- A search over the iterative engine on a network of storage nodes, wide enough for as many nodes as a reply
    names. -/
structure Crosses (s : Search Testnet Iterative.Lookup) (w : Iterative.Width) (t : Testnet) : Prop where
  transport : s.transport = Testnet.transport
  engine : s.engine = .iterative w
  alpha : 0 < w.alpha
  k : bucketSize ≤ w.k
  formed : t.WellFormed

variable {s : Search Testnet Iterative.Lookup} {read : Reader ρ} {init : ρ} {start : Instant}
  {last : Discovery Testnet Iterative.Lookup ρ} {ending : Ending ρ} {state : ρ}

/-- A discovery finds a network, and leaves it, with the same views. -/
theorem kept_of_discover (hcrosses : s.Crosses w t)
    (hdiscover : s.discover read init start t = (ending, last)) :
    let after := (s.transport.replay t last.history).2
    (after.views = t.views ∧ after.WellFormed) ∧ ∀ q ∈ s.transport.queries t last.history,
      ∃ before : Testnet, (before.views = t.views ∧ before.WellFormed) ∧
        q.delivery = (before.get q.node.address q.request).1 := by
  have htransport := hcrosses.transport
  have hkeep (time : Instant) (address : Address) (request : GetRequest) (u : Testnet)
      (hu : u.views = t.views ∧ u.WellFormed) :
      (Testnet.transport.get time address request u).2.views = t.views ∧
        (Testnet.transport.get time address request u).2.WellFormed := by
    obtain ⟨-, hsame, hafter⟩ := get_spec hu.2 address request
    exact ⟨hsame.trans hu.1, hafter⟩
  rw [htransport]
  exact History.kept_of_reading hkeep (onlyReads_of_discover hdiscover) ⟨rfl, hcrosses.formed⟩

/-- Every query gets the answer that the network gave at first. -/
theorem delivery_of_mem_queries (hcrosses : s.Crosses w t)
    (hdiscover : s.discover read init start t = (ending, last)) :
    ∀ q ∈ s.transport.queries t last.history,
      q.request = s.request ∧ q.delivery = t.answer q.node.address s.request := by
  intro q hq
  have hrequest := (requests_of_discover hdiscover q hq).1
  obtain ⟨before, ⟨hviews, hformed⟩, hdelivery⟩ := (kept_of_discover hcrosses hdiscover).2 q hq
  refine ⟨hrequest, ?_⟩
  rw [hdelivery, hrequest]
  exact (get_spec hformed q.node.address s.request).1.trans (answer_congr hviews)

/-- A reply names the nodes that are closest to the target, whoever replies. -/
theorem mem_closer_iff (hformed : t.WellFormed) {q : Query} {timeout : Nat} {node : Node}
    (hdelivery : q.delivery = t.answer q.node.address s.request) :
    node ∈ (q.report timeout).closer ↔
      (∃ n ∈ t.nodes, n.address = q.node.address ∧ n.behavior.repliesToGets = true) ∧
        ∃ n ∈ t.closest s.target bucketSize, n.node = node := by
  rw [← mem_closestNodes_iff hformed]
  have hreply (reply : GetReply) : q.reply? timeout = some reply ↔
      ∃ n ∈ t.nodes, n.address = q.node.address ∧ n.behavior.repliesToGets = true ∧
        reply = n.view.answer clientAddress s.request (t.closestNodes s.target) := by
    rw [Query.reply?_eq_some_iff]
    constructor
    · rintro ⟨delay, hafter, -⟩
      obtain ⟨n, hn, haddress, hreplies, -, hanswer⟩ :=
        (answer_eq_ok_iff hformed).1 (hdelivery.symm.trans hafter)
      exact ⟨n, hn, haddress, hreplies, hanswer⟩
    · rintro ⟨n, hn, haddress, hreplies, hanswer⟩
      refine ⟨0, hdelivery.trans ?_, Nat.zero_le _⟩
      exact (answer_eq_ok_iff hformed).2 ⟨n, hn, haddress, hreplies, rfl, hanswer⟩
  constructor
  · intro hnode
    cases hfound : q.reply? timeout with
    | none => simp [Query.report, hfound] at hnode
    | some reply =>
      obtain ⟨n, hn, haddress, hreplies, rfl⟩ := (hreply reply).1 hfound
      have hcloser : (q.report timeout).closer = t.closestNodes s.target := by
        simp [Query.report, hfound, StorageNode.report_answer]
      rw [hcloser] at hnode
      exact ⟨⟨n, hn, haddress, hreplies⟩, hnode⟩
  · rintro ⟨⟨n, hn, haddress, hreplies⟩, hnode⟩
    have hfound := (hreply _).2 ⟨n, hn, haddress, hreplies, rfl⟩
    simpa [Query.report, hfound, StorageNode.report_answer] using hnode

/-- How the course of a lookup across a network stands once it has asked some queries and stalled. -/
structure Surveys (s : Search Testnet Iterative.Lookup) (w : Iterative.Width) (t : Testnet)
    (queries : List Query) (c : Course Iterative.Lookup) : Prop where
  recorded : Iterative.Recorded (fun _ => true) c
  distinct : (c.state.candidates.nodes.map Node.id).Nodup
  sorted : c.state.candidates.nodes.Pairwise fun node later => NodeId.CloserTo s.target node.id later.id
  seeds : c.seeds = t.startingNodes
  asked : ∀ address ∈ c.asked.map Node.address, ∃ q ∈ queries, q.node.address = address
  converged : ∀ node ∈ c.state.candidates.nodes.take w.k, ∃ q ∈ queries, q.node.address = node.address
  reported : ∀ q ∈ queries, (q.node, q.report s.timeout) ∈ c.reports
  closer : ∀ entry ∈ c.reports, ∀ node, node ∈ entry.2.closer ↔
    (∃ n ∈ t.nodes, n.address = entry.1.address ∧ n.behavior.repliesToGets = true) ∧
      ∃ n ∈ t.closest s.target bucketSize, n.node = node

theorem Stalled.surveys {c : Course Iterative.Lookup} {processed : List Query} (hcrosses : s.Crosses w t)
    (hdiscover : s.discover read init start t = (ending, last)) (hstalled : s.Stalled t last c processed) :
    s.Surveys w t (s.transport.queries t last.history) c := by
  have hdelivery := delivery_of_mem_queries hcrosses hdiscover
  have hreach := hstalled.pursues.reaches
  have haccepts : s.transport.accepts = fun _ => true := by
    rw [hcrosses.transport]
    rfl
  rw [hcrosses.engine, haccepts] at hreach
  have hquery : ∀ address ∈ c.asked.map Node.address,
      ∃ q ∈ s.transport.queries t last.history, q.node.address = address := by
    intro address hmem
    rw [hstalled.asked, List.map_map] at hmem
    exact List.mem_map.1 hmem
  refine ⟨hreach.recorded, hreach.addressesKept.candidates, Iterative.sorted_of_reaches hreach, ?_,
    hquery, ?_, ?_, ?_⟩
  · rw [hstalled.pursues.seeds_eq, hcrosses.transport]
    rfl
  · exact fun node hmem => hquery _ (Iterative.asked_of_quiet hcrosses.alpha hreach hstalled.quiet node hmem)
  · intro q hq
    rw [hstalled.reports]
    exact List.mem_map_of_mem (hstalled.perm.mem_iff.2 hq)
  · intro entry hmem node
    rw [hstalled.reports] at hmem
    obtain ⟨q, hq, rfl⟩ := List.mem_map.1 hmem
    exact mem_closer_iff hcrosses.formed (hdelivery q (hstalled.perm.mem_iff.1 hq)).2

namespace Surveys

variable {queries : List Query} {c : Course Iterative.Lookup} {n : StorageNode}

/-- Only nodes of the network are known, by their own ids. -/
theorem exists_node (hsurveys : s.Surveys w t queries c) {node : Node}
    (hnode : node ∈ c.state.candidates.nodes) : ∃ n ∈ t.nodes, n.node = node := by
  obtain ⟨-, hseed | ⟨entry, hentry, hnamed⟩⟩ := hsurveys.recorded.candidates node hnode
  · rw [hsurveys.seeds] at hseed
    obtain ⟨n, hn, rfl⟩ := List.mem_map.1 hseed
    exact ⟨n, List.mem_of_mem_take hn, rfl⟩
  · obtain ⟨n, hn, rfl⟩ := ((hsurveys.closer entry hentry node).1 hnamed).2
    exact ⟨n, mem_of_mem_closest hn, rfl⟩

theorem mem_candidates (hformed : t.WellFormed) (hsurveys : s.Surveys w t queries c) (hn : n ∈ t.nodes)
    (hid : ∃ known ∈ c.state.candidates.nodes, known.id = n.node.id) :
    n.node ∈ c.state.candidates.nodes := by
  obtain ⟨known, hmem, hid⟩ := hid
  obtain ⟨m, hm, rfl⟩ := hsurveys.exists_node hmem
  rwa [eq_of_id_eq hformed hn hm hid.symm]

/-- A node that is among the closest was asked if any reply named it. -/
theorem asked_of_named (hcrosses : s.Crosses w t) (hsurveys : s.Surveys w t queries c)
    (hn : n ∈ t.closest s.target bucketSize) {entry : Node × QueryReport} (hentry : entry ∈ c.reports)
    (hnamed : n.node ∈ entry.2.closer) : ∃ q ∈ queries, q.node.address = n.address := by
  obtain hasked | hknown := hsurveys.recorded.named entry hentry n.node hnamed rfl
  · exact hsurveys.asked _ hasked
  · have hcandidate := hsurveys.mem_candidates hcrosses.formed (mem_of_mem_closest hn) hknown
    have hfirst := hcrosses.formed.mem_take hsurveys.sorted (fun _ => hsurveys.exists_node) hn hcandidate
    exact hsurveys.converged n.node (List.take_subset_take_left _ hcrosses.k hfirst)

/-- Without any reply only the nodes to begin with are known, and all of these were asked: so there was a
    reply if one of them replies. -/
theorem exists_named (hcrosses : s.Crosses w t) (hsurveys : s.Surveys w t queries c)
    (hentry : ∃ n ∈ t.nodes.take bootstrapSize, n.behavior.repliesToGets = true)
    (hn : n ∈ t.closest s.target bucketSize) : ∃ entry ∈ c.reports, n.node ∈ entry.2.closer := by
  obtain ⟨b, hb, hreplies⟩ := hentry
  by_contra hnone
  have honly : c.state.candidates.nodes ⊆ t.startingNodes := by
    intro node hnode
    obtain ⟨-, hseed | ⟨entry, hmem, hother⟩⟩ := hsurveys.recorded.candidates node hnode
    · rwa [hsurveys.seeds] at hseed
    · obtain ⟨hreplied, -⟩ := (hsurveys.closer entry hmem node).1 hother
      exact absurd ⟨entry, hmem, (hsurveys.closer entry hmem n.node).2 ⟨hreplied, n, hn, rfl⟩⟩ hnone
  have hfew : c.state.candidates.nodes.length ≤ w.k :=
    calc c.state.candidates.nodes.length
        ≤ t.startingNodes.length :=
          (List.subperm_of_subset (List.Nodup.of_map _ hsurveys.distinct) honly).length_le
      _ ≤ bootstrapSize := (List.length_map ..).trans_le (List.length_take_le ..)
      _ ≤ bucketSize := by decide
      _ ≤ w.k := hcrosses.k
  have hseed : b.node ∈ t.startingNodes := List.mem_map_of_mem hb
  have hbNode := List.mem_of_mem_take hb
  have hcandidate : b.node ∈ c.state.candidates.nodes :=
    hsurveys.mem_candidates hcrosses.formed hbNode (hsurveys.recorded.seeded _ (hsurveys.seeds ▸ hseed) rfl)
  obtain ⟨q, hq, haddress⟩ := hsurveys.converged b.node (by rwa [List.take_of_length_le hfew])
  have hreported := hsurveys.reported q hq
  exact hnone ⟨_, hreported,
    (hsurveys.closer _ hreported n.node).2 ⟨⟨b, hbNode, haddress.symm, hreplies⟩, n, hn, rfl⟩⟩

end Surveys

/-- A discovery that is exhausted has asked each node that is among the closest to the target, if one of the
    nodes that it began with replies to gets. -/
theorem asked_of_exhausted (hcrosses : s.Crosses w t)
    (hentry : ∃ n ∈ t.nodes.take bootstrapSize, n.behavior.repliesToGets = true)
    (hdiscover : s.discover read init start t = (.exhausted state, last)) :
    ∀ n ∈ t.closest s.target bucketSize,
      ∃ q ∈ s.transport.queries t last.history, q.node.address = n.address := by
  intro n hn
  obtain ⟨c, processed, hstalled⟩ := stalled_of_exhausted hdiscover
  have hsurveys := hstalled.surveys hcrosses hdiscover
  obtain ⟨entry, hreported, hnamed⟩ := hsurveys.exists_named hcrosses hentry hn
  exact hsurveys.asked_of_named hcrosses hn hreported hnamed

end Search

end DhtStore
