import DhtStore.Proofs.Testnet.Order
import DhtStore.Proofs.Testnet.WellFormed

namespace DhtStore.Testnet

variable {t u : Testnet} {n : StorageNode} {target : NodeId} {address : Address} {request : GetRequest}

/-- What others can tell of the nodes of a network. -/
def views (t : Testnet) : List StorageNode.View := t.nodes.map StorageNode.view

/-- What a network answers to a get, as its views determine it. -/
def answer (t : Testnet) (address : Address) (request : GetRequest) : Delivery GetReply :=
  match t.views.find? (·.address = address) with
  | none => .after 0 (.error (.unreachable address))
  | some v =>
    if v.behavior = .offline then .after 0 (.error (.unreachable address))
    else if v.behavior = .unresponsive then .never
    else .after 0 (.ok (v.answer clientAddress request (t.closestNodes request.target)))

theorem map_view_closest (t : Testnet) (target : NodeId) (count : Nat) :
    (t.closest target count).map StorageNode.view =
      (sortByDistance StorageNode.View.id target t.views).take count := by
  have hsorted : (sortByDistance StorageNode.id target t.nodes).map StorageNode.view =
      sortByDistance StorageNode.View.id target t.views := map_sortByDistance fun _ => rfl
  rw [closest, List.map_take, hsorted]

theorem length_closest (t : Testnet) (target : NodeId) (count : Nat) :
    (t.closest target count).length = min t.nodes.length count := by
  have hlength : (sortByDistance StorageNode.id target t.nodes).length = t.nodes.length :=
    perm_sortByDistance.length_eq
  rw [closest, List.length_take, hlength, Nat.min_comm]

/-- Some node is closest, unless there is none at all. -/
theorem exists_mem_closest (hsome : t.nodes ≠ []) (target : NodeId) : ∃ n, n ∈ t.closest target bucketSize := by
  refine List.exists_mem_of_length_pos ?_
  rw [length_closest]
  exact Nat.lt_min.2 ⟨List.length_pos_iff.2 hsome, by decide⟩

/-- What happens to the nodes of a network does not decide which of them are closest. -/
theorem closest_map {f : StorageNode → StorageNode} (hid : ∀ n, (f n).id = n.id) (target : NodeId)
    (count : Nat) : (⟨t.nodes.map f⟩ : Testnet).closest target count = (t.closest target count).map f := by
  rw [closest, closest, List.map_take, map_sortByDistance hid]

/-- Which nodes are closest can be told from the views. -/
theorem map_closest_congr {β : Type} (hviews : u.views = t.views) (target : NodeId) (count : Nat)
    (f : StorageNode.View → β) :
    (u.closest target count).map (fun n => f n.view) = (t.closest target count).map fun n => f n.view := by
  have hsame : ((u.closest target count).map StorageNode.view).map f =
      ((t.closest target count).map StorageNode.view).map f := by
    rw [map_view_closest, map_view_closest, hviews]
  rwa [List.map_map, List.map_map] at hsame

theorem closestNodes_congr (hviews : u.views = t.views) : u.closestNodes target = t.closestNodes target := by
  have hnodes : (u.closest target bucketSize).map StorageNode.node =
      (t.closest target bucketSize).map StorageNode.node :=
    map_closest_congr hviews target bucketSize fun v : StorageNode.View => (⟨v.id, v.address, none⟩ : Node)
  rw [closestNodes, closestNodes, hnodes]

theorem answer_congr (hviews : u.views = t.views) : u.answer address request = t.answer address request := by
  unfold answer
  rw [hviews, closestNodes_congr hviews]

theorem find?_views : t.views.find? (·.address = address) = (t.node? address).map StorageNode.view :=
  List.find?_map ..

/-- A network answers gets as others expect it to, and they cannot tell that it did. -/
theorem get_spec (hformed : t.WellFormed) (address : Address) (request : GetRequest) :
    (t.get address request).1 = t.answer address request ∧
      (t.get address request).2.views = t.views ∧ (t.get address request).2.WellFormed := by
  unfold get answer reachable?
  rw [find?_views]
  cases hfound : t.node? address with
  | none => exact ⟨rfl, rfl, hformed⟩
  | some n =>
    obtain ⟨hn, rfl⟩ := (node?_eq_some_iff hformed).1 hfound
    have hview : n.view.behavior = n.behavior := rfl
    rw [Option.filter_some, Option.map_some]
    dsimp only
    by_cases hoffline : n.behavior = .offline
    · simpa [hoffline, hview] using hformed
    · by_cases hsilent : n.behavior = .unresponsive
      · simpa [hoffline, hsilent, hview] using hformed
      · obtain ⟨hanswer, hafter, hfits⟩ := StorageNode.handleGet_spec (hformed.fits n hn) clientAddress request
          (t.closestNodes request.target)
        have hbecomes : n.Becomes (n.handleGet clientAddress request (t.closestNodes request.target)).2 :=
          ⟨congrArg StorageNode.View.id hafter, congrArg StorageNode.View.address hafter, fun _ => hfits⟩
        have hviews : (t.modify n.address fun _ => (n.handleGet clientAddress request
            (t.closestNodes request.target)).2).views = t.views := by
          refine (List.map_map ..).trans (List.map_congr_left fun m hm => ?_)
          change StorageNode.view (if m.address = n.address then _ else m) = m.view
          split
          · next hsame => rw [hafter, eq_of_address_eq hformed hm hn hsame]
          · rfl
        simp only [hoffline, hsilent, hview, if_true, if_false, ne_eq,
          not_false_eq_true, decide_true]
        exact ⟨by rw [hanswer], hviews, hformed.modify hn hbecomes⟩

/-- The networks that come to be when few enough nodes are created, with different ids, and then used. -/
inductive Arises : Testnet → Prop
  | create {count : Nat} {ids : List NodeId} {d : Draws} : count ≤ capacity →
    ((create count ids d).nodes.map StorageNode.id).Nodup → Arises (create count ids d)
  | seed {t : Testnet} (item : Item) : Arises t → Arises (t.seed item)
  | setBehavior {t : Testnet} (addresses : List Address) (behavior : Behavior) :
    Arises t → Arises (t.setBehavior addresses behavior)
  | setBehaviorOfAll {t : Testnet} (behavior : Behavior) : Arises t → Arises (t.setBehaviorOfAll behavior)
  | inspect {t : Testnet} (target : NodeId) : Arises t → Arises (t.inspect target).2
  | get {t : Testnet} (address : Address) (request : GetRequest) : Arises t → Arises (t.get address request).2
  | put {t : Testnet} (address : Address) (request : PutRequest) : Arises t → Arises (t.put address request).2

/-- Whatever is done to a network once it was created, it is well-formed. -/
theorem Arises.wellFormed (harises : Arises t) : t.WellFormed := by
  induction harises with
  | create hcount hids => exact wellFormed_create hcount hids
  | seed item _ ih => exact ih.seed item
  | setBehavior addresses behavior _ ih => exact ih.setBehavior addresses behavior
  | setBehaviorOfAll behavior _ ih => exact ih.setBehaviorOfAll behavior
  | inspect target _ ih => exact ih.inspect target
  | get address request _ ih => exact (get_spec ih address request).2.2
  | put address request _ ih => exact ih.put address request

/-- A get gets a reply exactly if a node is at the address that replies to gets, and it gets it at once. -/
theorem answer_eq_ok_iff (hformed : t.WellFormed) {delay : Nat} {reply : GetReply} :
    t.answer address request = .after delay (.ok reply) ↔
      ∃ n ∈ t.nodes, n.address = address ∧ n.behavior.repliesToGets = true ∧ delay = 0 ∧
        reply = n.view.answer clientAddress request (t.closestNodes request.target) := by
  unfold answer
  rw [find?_views]
  cases hfound : t.node? address with
  | none =>
    constructor
    · nofun
    · rintro ⟨n, hn, haddress, -⟩
      rw [(node?_eq_some_iff hformed).2 ⟨hn, haddress⟩] at hfound
      cases hfound
  | some n =>
    obtain ⟨hn, haddress⟩ := (node?_eq_some_iff hformed).1 hfound
    have honly : (∃ m ∈ t.nodes, m.address = address ∧ m.behavior.repliesToGets = true ∧ delay = 0 ∧
        reply = m.view.answer clientAddress request (t.closestNodes request.target)) ↔
        n.behavior.repliesToGets = true ∧ delay = 0 ∧
          reply = n.view.answer clientAddress request (t.closestNodes request.target) := by
      constructor
      · rintro ⟨m, hm, hsame, hrest⟩
        rw [(node?_eq_some_iff hformed).2 ⟨hm, hsame⟩] at hfound
        cases hfound
        exact hrest
      · exact fun hrest => ⟨n, hn, haddress, hrest⟩
    rw [honly, Option.map_some]
    have hview : n.view.behavior = n.behavior := rfl
    simp only [hview]
    cases n.behavior <;> simp [Behavior.repliesToGets, eq_comm]

theorem mem_of_mem_closest {count : Nat} (hn : n ∈ t.closest target count) : n ∈ t.nodes :=
  perm_sortByDistance.mem_iff.1 (List.mem_of_mem_take hn)

theorem nodup_addresses_closest (hformed : t.WellFormed) {count : Nat} :
    ((t.closest target count).map StorageNode.address).Nodup := by
  have hall : ((sortByDistance StorageNode.id target t.nodes).map StorageNode.address).Nodup :=
    (perm_sortByDistance.map StorageNode.address).nodup_iff.2 hformed.addresses_nodup
  exact hall.sublist ((List.take_sublist ..).map StorageNode.address)

/-- Every reply names exactly the nodes that are closest to the target. -/
theorem mem_closestNodes_iff (hformed : t.WellFormed) {node : Node} :
    node ∈ t.closestNodes target ↔ ∃ n ∈ t.closest target bucketSize, n.node = node := by
  have hids : (((t.closest target bucketSize).map StorageNode.node).map Node.id).Nodup := by
    have hall : ((sortByDistance StorageNode.id target t.nodes).map StorageNode.id).Nodup :=
      (perm_sortByDistance.map StorageNode.id).nodup_iff.2 hformed.ids
    rw [List.map_map]
    exact hall.sublist ((List.take_sublist _ _).map StorageNode.id)
  unfold closestNodes
  rw [ClosestNodes.mem_addAll_empty_iff, find?_key_eq_some_iff Node.id hids, and_iff_left rfl, List.mem_map]

end DhtStore.Testnet
