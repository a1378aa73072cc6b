import DhtStore.Proofs.Client.Get
import DhtStore.Proofs.Testnet.Puts

namespace DhtStore

open Reader Testnet

variable {t u : Testnet} {n : StorageNode} {target : NodeId} {salt : Option Bytes}

namespace Testnet

/-- All nodes are honest, and at a target they hold nothing but mutable items that may be accepted there with a
    salt. -/
structure OpenTo (t : Testnet) (target : NodeId) (salt : Option Bytes) : Prop where
  honest : ∀ n ∈ t.nodes, n.behavior = .honest
  vacant : ∀ n ∈ t.nodes, n.immutables.peek? target = none
  accepted : ∀ n ∈ t.nodes, ∀ held, n.mutables.peek? target = some held →
    ∃ item, (GetReply.ofMutable held).classify target salt = .mutable item

/-- The highest sequence number that the nodes surveyed hold at a target, or 0 if that is higher. -/
def topSeq (t : Testnet) (target : NodeId) : Seq :=
  ((t.surveyed target).filterMap fun n => (n.mutables.peek? target).map MutableItem.seq).foldl max 0

/-- One of the nodes surveyed holds the item at a target, and each one that holds another there holds an older
    one. -/
structure Leads (t : Testnet) (target : NodeId) (item : MutableItem) : Prop where
  held : ∃ n ∈ t.surveyed target, n.mutables.peek? target = some item
  newest : ∀ n ∈ t.surveyed target, ∀ other, n.mutables.peek? target = some other →
    other = item ∨ other.seq < item.seq

theorem le_topSeq {held : MutableItem} (hn : n ∈ t.surveyed target)
    (hheld : n.mutables.peek? target = some held) : held.seq ≤ t.topSeq target := by
  obtain ⟨-, -, hhighest⟩ := Seq.foldl_max_spec
    ((t.surveyed target).filterMap fun n => (n.mutables.peek? target).map MutableItem.seq) 0
  exact hhighest _ (List.mem_filterMap.2 ⟨n, hn, by rw [hheld]; rfl⟩)

/-- The highest sequence number is below a bound if 0 is and all those held are. -/
theorem topSeq_lt {bound : Seq} (hpositive : 0 < bound)
    (hbelow : ∀ n ∈ t.nodes, ∀ held, n.mutables.peek? target = some held → held.seq < bound) :
    t.topSeq target < bound := by
  obtain ⟨hone, -⟩ := Seq.foldl_max_spec
    ((t.surveyed target).filterMap fun n => (n.mutables.peek? target).map MutableItem.seq) 0
  obtain hzero | hmem := hone
  · rw [topSeq, hzero]
    exact hpositive
  · obtain ⟨n, hn, hseq⟩ := List.mem_filterMap.1 hmem
    obtain ⟨held, hheld, hseq⟩ := Option.map_eq_some_iff.1 hseq
    rw [topSeq, ← hseq]
    exact hbelow n (mem_of_mem_surveyed hn) held hheld

section

variable (hviews : u.views = t.views)

include hviews

theorem exists_view_eq (hn : n ∈ u.nodes) : ∃ m ∈ t.nodes, m.view = n.view := by
  have hview : n.view ∈ u.views := List.mem_map_of_mem hn
  rw [hviews] at hview
  exact List.mem_map.1 hview

theorem OpenTo.congr (hopen : t.OpenTo target salt) : u.OpenTo target salt := by
  refine ⟨fun n hn => ?_, fun n hn => ?_, fun n hn held hheld => ?_⟩
  all_goals obtain ⟨m, hm, hview⟩ := exists_view_eq hviews hn
  · exact (congrArg StorageNode.View.behavior hview).symm.trans (hopen.honest m hm)
  · exact (congrFun (congrArg StorageNode.View.immutable? hview) target).symm.trans (hopen.vacant m hm)
  · exact hopen.accepted m hm held
      ((congrFun (congrArg StorageNode.View.mutable? hview) target).trans hheld)

/-- Which nodes are surveyed can be told from the views. -/
theorem map_surveyed_congr {β : Type} (target : NodeId) (f : StorageNode.View → β) :
    (u.surveyed target).map (fun n => f n.view) = (t.surveyed target).map fun n => f n.view := by
  have hasked (v : Testnet) : (v.surveyed target).map StorageNode.view = v.views.filter fun view =>
      (v.views.take bootstrapSize ++ (v.closest target bucketSize).map StorageNode.view).any
        (·.address = view.address) := by
    simp only [views, ← List.map_take, ← List.map_append, List.filter_map, Function.comp_def, List.any_map]
    rfl
  have hclosest : (u.closest target bucketSize).map StorageNode.view =
      (t.closest target bucketSize).map StorageNode.view := map_closest_congr hviews target bucketSize id
  have hsame : (u.surveyed target).map StorageNode.view = (t.surveyed target).map StorageNode.view := by
    rw [hasked, hasked, hviews, hclosest]
  simpa [Function.comp_def] using congrArg (List.map f) hsame

theorem topSeq_congr : u.topSeq target = t.topSeq target := by
  have hheld := map_surveyed_congr hviews target fun view => (view.mutable? target).map MutableItem.seq
  have hseqs (v : Testnet) : v.topSeq target = (((v.surveyed target).map fun n =>
      (n.view.mutable? target).map MutableItem.seq).filterMap id).foldl max 0 := by
    rw [List.filterMap_map]
    rfl
  rw [hseqs, hseqs, hheld]

end

end Testnet

/-- What a client accepts of an honest node's answer is what the node holds. -/
theorem StorageNode.item?_answer_eq_some_iff (hopen : t.OpenTo target salt) (hn : n ∈ t.nodes)
    {requester : Address} {nodes : List Node} {item : Item} :
    ((n.view.answer requester ⟨target, none⟩ nodes).classify target salt).item? = some item ↔
      ∃ held found, n.mutables.peek? target = some held ∧
        (GetReply.ofMutable held).classify target salt = .mutable found ∧ item = .mutable found := by
  have htruthful : n.behavior ≠ .corrupt := by
    rw [hopen.honest n hn]
    nofun
  rw [classify_answer htruthful, hopen.vacant n hn]
  cases hheld : n.mutables.peek? target with
  | none => simp [Classification.item?]
  | some held =>
    obtain ⟨found, hfound⟩ := hopen.accepted n hn held hheld
    have hclass : (withMutable {} none held).classify target salt = .mutable found := hfound
    simp only [hclass]
    constructor
    · intro hitem
      exact ⟨held, found, rfl, hfound, (Option.some_inj.1 hitem).symm⟩
    · rintro ⟨_, other, hsame, hother, rfl⟩
      cases hsame
      cases hfound.symm.trans hother
      rfl

theorem GetReply.seq_eq_of_classify {held found : MutableItem}
    (hfound : (ofMutable held).classify target salt = .mutable found) : found.seq = held.seq := by
  obtain ⟨-, -, hseq, -⟩ := (classify_eq_mutable_iff.1 hfound).1
  exact (Option.some_inj.1 hseq).symm

namespace Search

variable {ρ : Type} {w : Iterative.Width} {s : Search Testnet Iterative.Lookup} {read : Reader ρ}
  {init state : ρ} {start : Instant} {last : Discovery Testnet Iterative.Lookup ρ} {ending : Ending ρ}

/-- No immutable item is ever offered. -/
theorem isMutable_of_mem_offers (hcrosses : s.Crosses w t) (hseq : s.seq = none)
    (hopen : t.OpenTo s.target s.salt) (hdiscover : s.discover read init start t = (ending, last))
    {arrival : Instant} {node : Node} {item : Item}
    (hoffer : (arrival, node, item) ∈ s.offers t last.history) : item.isMutable = true := by
  obtain ⟨q, hq, hbrings⟩ := List.mem_filterMap.1 hoffer
  obtain ⟨delay, reply, hafter, -, -, -, hitem⟩ := Query.offer?_eq_some_iff.1 hbrings
  have hdelivery := (delivery_of_mem_queries hcrosses hdiscover q hq).2
  have hrequest : s.request = ⟨s.target, none⟩ := by rw [request, hseq]
  rw [hafter, hrequest] at hdelivery
  obtain ⟨n, hn, -, -, -, rfl⟩ := (answer_eq_ok_iff hcrosses.formed).1 hdelivery.symm
  obtain ⟨held, found, -, -, rfl⟩ := (StorageNode.item?_answer_eq_some_iff hopen hn).1 hitem
  rfl

/-- Once there is nothing left to ask, all has been offered that the nodes surveyed hold. -/
theorem exists_offer_iff (hspans : s.Spans w t) (hseq : s.seq = none) (htimeout : 0 < s.timeout)
    (hopen : t.OpenTo s.target s.salt) (hdiscover : s.discover read init start t = (.exhausted state, last))
    {found : MutableItem} :
    (∃ arrival node, (arrival, node, .mutable found) ∈ s.offers t last.history) ↔
      ∃ n ∈ t.surveyed s.target, ∃ held, n.mutables.peek? s.target = some held ∧
        (GetReply.ofMutable held).classify s.target s.salt = .mutable found := by
  have hrequest : s.request = ⟨s.target, none⟩ := by rw [request, hseq]
  constructor
  · rintro ⟨arrival, node, hoffer⟩
    obtain ⟨q, hq, hbrings⟩ := List.mem_filterMap.1 hoffer
    obtain ⟨delay, reply, hafter, -, -, -, hitem⟩ := Query.offer?_eq_some_iff.1 hbrings
    obtain ⟨n, hn, -, hanswer, -⟩ := exists_surveyed_of_mem_queries hspans hdiscover q hq
    cases hanswer.symm.trans hafter
    rw [hrequest] at hitem
    obtain ⟨held, other, hheld, hclass, hsame⟩ :=
      (StorageNode.item?_answer_eq_some_iff hopen (mem_of_mem_surveyed hn)).1 hitem
    cases hsame
    exact ⟨n, hn, held, hheld, hclass⟩
  · rintro ⟨n, hn, held, hheld, hclass⟩
    obtain ⟨q, hq, -, hanswer, -⟩ := exists_query_of_mem_surveyed hspans hdiscover hn
    have hitem : ((n.view.answer clientAddress s.request (t.closestNodes s.target)).classify s.target
        s.salt).item? = some (.mutable found) := by
      rw [hrequest]
      exact (StorageNode.item?_answer_eq_some_iff hopen (mem_of_mem_surveyed hn)).2
        ⟨held, found, hheld, hclass, rfl⟩
    refine ⟨q.start, q.node, List.mem_filterMap.2 ⟨q, hq, ?_⟩⟩
    exact Query.offer?_eq_some_iff.2 ⟨0, _, hanswer, htimeout, rfl, rfl, hitem⟩

/-- Once there is nothing left to ask, the highest sequence number seen is the highest that the nodes surveyed
    hold. -/
theorem seen_of_exhausted (hspans : s.Spans w t) (hseq : s.seq = none) (htimeout : 0 < s.timeout)
    (hopen : t.OpenTo s.target s.salt) {seen : Seq} {d : Discovery Testnet Iterative.Lookup Seq}
    (hdiscover : s.discover highestSeq 0 start t = (.exhausted seen, d)) : seen = t.topSeq s.target := by
  obtain ⟨haccounts, hoffered, hflying, -, hseen, -⟩ := exhausted_spec hdiscover
  have hreads := haccounts.reads_perm_offers hoffered hflying
  have hreader := haccounts.reader
  rw [readAll_highestSeq, hseen, Verdict.reading.injEq] at hreader
  rw [← hreader]
  -- The items read are those offered in another order, and one item may be held by several nodes.
  refine Seq.foldl_max_congr (fun seq => ?_) 0
  rw [List.filterMap_map, List.mem_filterMap, List.mem_filterMap]
  constructor
  · rintro ⟨⟨arrival, node, item⟩, hread, hitem⟩
    cases item with
    | immutable value => cases hitem
    | mutable found =>
      cases hitem
      obtain ⟨n, hn, held, hheld, hclass⟩ := (exists_offer_iff hspans hseq htimeout hopen hdiscover).1
        ⟨arrival, node, hreads.mem_iff.1 hread⟩
      refine ⟨n, hn, ?_⟩
      rw [hheld, GetReply.seq_eq_of_classify hclass]
      rfl
  · rintro ⟨n, hn, hheldSeq⟩
    obtain ⟨held, hheld, rfl⟩ := Option.map_eq_some_iff.1 hheldSeq
    obtain ⟨found, hclass⟩ := hopen.accepted n (mem_of_mem_surveyed hn) held hheld
    obtain ⟨arrival, node, hoffer⟩ := (exists_offer_iff hspans hseq htimeout hopen hdiscover).2
      ⟨n, hn, held, hheld, hclass⟩
    exact ⟨_, hreads.mem_iff.2 hoffer, congrArg some (GetReply.seq_eq_of_classify hclass)⟩

/-- An item that leads is the one that is kept. -/
theorem best_of_leads (hspans : s.Spans w t) (hseq : s.seq = none) (htimeout : 0 < s.timeout)
    (hopen : t.OpenTo s.target s.salt) {item : MutableItem} (hleads : t.Leads s.target item)
    (hclass : (GetReply.ofMutable item).classify s.target s.salt = .mutable item) {kept : Option MutableItem}
    {d : Discovery Testnet Iterative.Lookup (Option MutableItem)}
    (hdiscover : s.discover best none start t = (.exhausted kept, d)) : kept = some item := by
  obtain ⟨hnone, hbest⟩ := best_of_exhausted hdiscover
  obtain ⟨m, hm, hheld⟩ := hleads.held
  obtain ⟨arrival, node, hoffer⟩ :=
    (exists_offer_iff hspans hseq htimeout hopen hdiscover).2 ⟨m, hm, item, hheld, hclass⟩
  cases kept with
  | none =>
    rw [hnone.1 rfl] at hoffer
    cases hoffer
  | some found =>
    obtain ⟨⟨time, source, -, hfound⟩, hhighest⟩ := hbest found rfl
    obtain ⟨n, hn, other, hother, hsame⟩ :=
      (exists_offer_iff hspans hseq htimeout hopen hdiscover).1 ⟨time, source, hfound⟩
    obtain rfl | hlower := hleads.newest n hn other hother
    · cases hclass.symm.trans hsame
      rfl
    · -- The leading item was offered as well, so none with a lower number can be the best.
      rw [← GetReply.seq_eq_of_classify hsame] at hlower
      exact absurd (Int64.lt_of_lt_of_le hlower (hhighest arrival node item hoffer)) Int64.lt_irrefl

end Search

end DhtStore
