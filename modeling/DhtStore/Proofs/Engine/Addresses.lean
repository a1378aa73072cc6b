import DhtStore.Engine.Iterative
import DhtStore.Proofs.ClosestNodes
import DhtStore.Proofs.Engine.Course
import Mathlib.Data.Finset.Card
import Mathlib.Data.List.Nodup

namespace DhtStore

open Iterative

variable {w : Width} {accepts : Node → Bool} {target : NodeId} {c : Course Lookup}

namespace Iterative

/-- What a lookup has on record about the addresses it asked is true, and it never goes back to one. -/
structure AddressesKept (c : Course Lookup) : Prop where
  visited : ∀ address, address ∈ c.state.visited ↔ address ∈ c.asked.map Node.address
  tried : c.state.stats.tried = c.asked.length
  disjoint : c.batches.Pairwise fun earlier later =>
    (earlier.map Node.address).Disjoint (later.map Node.address)
  candidates : (c.state.candidates.nodes.map Node.id).Nodup
  ids : ∀ batch ∈ c.batches, (batch.map Node.id).Nodup

namespace AddressesKept

theorem start : AddressesKept { state := (Engine.iterative w).start target } where
  visited _ := Iff.rfl
  tried := rfl
  disjoint := .nil
  candidates := .nil
  ids _ hbatch := by cases hbatch

theorem ask (hkept : AddressesKept c) : AddressesKept (c.ask (Engine.iterative w)) where
  visited address := by
    change address ∈ (c.state.next w c.inFlight.length).1.map Node.address ++ c.state.visited ↔ _
    rw [Course.asked_ask, List.map_append, List.mem_append, List.mem_append, hkept.visited address]
    exact or_comm
  tried := by
    change c.state.stats.tried + (c.state.next w c.inFlight.length).1.length = _
    rw [Course.asked_ask, List.length_append, hkept.tried]
    rfl
  disjoint := by
    refine List.pairwise_append.2 ⟨hkept.disjoint, List.pairwise_singleton _ _, ?_⟩
    intro earlier hearlier later hlater address hmem hmemLater
    obtain rfl := List.mem_singleton.1 hlater
    obtain ⟨node, hnode, rfl⟩ := List.mem_map.1 hmemLater
    obtain ⟨old, hold, haddress⟩ := List.mem_map.1 hmem
    have hasked : node.address ∈ c.asked.map Node.address :=
      List.mem_map.2 ⟨old, List.mem_flatten.2 ⟨earlier, hearlier, hold⟩, haddress⟩
    exact (c.state.mem_next w _ hnode).2 ((hkept.visited _).2 hasked)
  candidates := hkept.candidates
  ids := by
    intro batch hbatch
    obtain hbatch | hbatch := List.mem_append.1 hbatch
    · exact hkept.ids batch hbatch
    · obtain rfl := List.mem_singleton.1 hbatch
      have hsublist : (c.state.next w c.inFlight.length).1.Sublist c.state.candidates.nodes :=
        (List.take_sublist _ _).trans (List.filter_sublist.trans (List.take_sublist _ _))
      exact hkept.candidates.sublist (hsublist.map Node.id)

theorem seed (hkept : AddressesKept c) (nodes : List Node) :
    AddressesKept (c.seed (Engine.iterative w) accepts nodes) where
  visited := hkept.visited
  tried := hkept.tried
  disjoint := hkept.disjoint
  candidates := ClosestNodes.nodup_ids_addAll hkept.candidates _
  ids := hkept.ids

theorem settle (hkept : AddressesKept c) (node : Node) (report : QueryReport) (others : List Node) :
    AddressesKept (c.settle (Engine.iterative w) accepts node report others) where
  visited address := by
    change address ∈ (c.state.respond report.responder).visited ↔ _
    rw [Lookup.visited_respond]
    exact hkept.visited address
  tried := by
    change (c.state.respond report.responder).stats.tried = _
    rw [Lookup.tried_respond]
    exact hkept.tried
  disjoint := hkept.disjoint
  candidates := by
    change (((c.state.respond report.responder).candidates.addAll _).nodes.map Node.id).Nodup
    rw [Lookup.candidates_respond]
    exact ClosestNodes.nodup_ids_addAll hkept.candidates _
  ids := hkept.ids

end AddressesKept

end Iterative

theorem Engine.Reaches.addressesKept (hreach : (Engine.iterative w).Reaches accepts target c) :
    AddressesKept c :=
  hreach.invariant .start (fun _ hkept => hkept.ask) (fun _ nodes hkept => hkept.seed nodes)
    (fun _ node report others _ hkept => hkept.settle node report others)

namespace Iterative

/-- Within one run, an address is asked again only in the batch in which it is first asked, and only
    under another id. -/
theorem addresses_of_reaches (hreach : (Engine.iterative w).Reaches accepts target c) :
    c.state.stats.tried = c.asked.length ∧
      (c.batches.Pairwise fun earlier later =>
        (earlier.map Node.address).Disjoint (later.map Node.address)) ∧
      (∀ batch ∈ c.batches, (batch.map Node.id).Nodup) ∧
      ((c.asked.map Node.address).Nodup ↔ ∀ batch ∈ c.batches, (batch.map Node.address).Nodup) ∧
      (c.state.stats.tried = (c.asked.map Node.address).toFinset.card ↔
        (c.asked.map Node.address).Nodup) := by
  have hkept := hreach.addressesKept
  refine ⟨hkept.tried, hkept.disjoint, hkept.ids, ?_, ?_⟩
  · rw [Course.asked, List.map_flatten, List.nodup_flatten, List.forall_mem_map, List.pairwise_map]
    exact and_iff_left hkept.disjoint
  · rw [hkept.tried, List.card_toFinset, ← List.length_map (f := Node.address)]
    constructor
    · intro hlength
      have hsame := (List.dedup_sublist (c.asked.map Node.address)).eq_of_length hlength.symm
      exact List.dedup_eq_self.1 hsame
    · intro hdistinct
      rw [List.dedup_eq_self.2 hdistinct]

theorem nodup_addresses_of_narrow (hnarrow : w.alpha ≤ 1 ∨ w.k ≤ 1)
    (hreach : (Engine.iterative w).Reaches accepts target c) : (c.asked.map Node.address).Nodup := by
  have hshort : ∀ batch ∈ c.batches, batch.length ≤ 1 := by
    refine hreach.invariant (I := fun c => ∀ batch ∈ c.batches, batch.length ≤ 1) ?_ ?_ ?_ ?_
    · intro batch hbatch
      cases hbatch
    · intro c hshort batch hbatch
      obtain hbatch | hbatch := List.mem_append.1 hbatch
      · exact hshort batch hbatch
      · obtain rfl := List.mem_singleton.1 hbatch
        have hroom := List.length_take_le (w.alpha - c.inFlight.length)
          ((c.state.candidates.nodes.take w.k).filter (!c.state.isVisited ·))
        have hclosest := List.length_take_le' (w.alpha - c.inFlight.length)
          ((c.state.candidates.nodes.take w.k).filter (!c.state.isVisited ·))
        have hfresh := List.length_filter_le (!c.state.isVisited ·) (c.state.candidates.nodes.take w.k)
        have hwidth := List.length_take_le w.k c.state.candidates.nodes
        change (((c.state.candidates.nodes.take w.k).filter (!c.state.isVisited ·)).take
          (w.alpha - c.inFlight.length)).length ≤ 1
        omega
    · exact fun _ _ hshort => hshort
    · exact fun _ _ _ _ _ hshort => hshort
  refine (addresses_of_reaches hreach).2.2.2.1.2 fun batch hbatch => ?_
  have hlength := hshort batch hbatch
  match batch with
  | [] => exact .nil
  | [node] => exact List.nodup_singleton _
  | first :: second :: rest => simp at hlength

/-- Two nodes of one address, with different ids. -/
def twins : List Node :=
  [⟨default, default, none⟩, ⟨⟨Octets.ofPadded [1]⟩, default, none⟩]

/-- A lookup that begins with two nodes of one address. -/
def twinCourse (w : Width) : Course Lookup :=
  Course.ask (Engine.iterative w)
    (Course.seed (Engine.iterative w) (fun _ => true) twins
      { state := (Engine.iterative w).start default })

theorem reaches_twinCourse : (Engine.iterative w).Reaches (fun _ => true) default (twinCourse w) :=
  .seed twins .start

/-- A lookup that is wider asks both of two nodes that share an address, at the same time. -/
theorem asked_twinCourse (halpha : 2 ≤ w.alpha) (hk : 2 ≤ w.k) : (twinCourse w).asked = twins := by
  have hnodes : ((ClosestNodes.empty default).addAll (twins.filter fun _ => true)).nodes = twins := by
    decide
  unfold twinCourse
  rw [Course.asked_ask]
  change ((((ClosestNodes.empty default).addAll (twins.filter fun _ => true)).nodes.take w.k).filter
    fun _ => true).take w.alpha = twins
  have hclosest : twins.take w.k = twins := List.take_of_length_le hk
  rw [hnodes, hclosest, List.filter_true]
  exact List.take_of_length_le halpha

/-- An iterative lookup counts as tried the nodes it asks, and these have different addresses exactly if
    no batch names one address twice: batches share no address, whatever the replies. No run at all asks
    an address twice exactly if the lookup is only one node wide. -/
theorem addresses_asked_once_iff (w : Width) :
    (∀ accepts target c, (Engine.iterative w).Reaches accepts target c →
      c.state.stats.tried = c.asked.length ∧
        (c.batches.Pairwise fun earlier later =>
          (earlier.map Node.address).Disjoint (later.map Node.address)) ∧
        (∀ batch ∈ c.batches, (batch.map Node.id).Nodup) ∧
        ((c.asked.map Node.address).Nodup ↔ ∀ batch ∈ c.batches, (batch.map Node.address).Nodup) ∧
        (c.state.stats.tried = (c.asked.map Node.address).toFinset.card ↔
          (c.asked.map Node.address).Nodup)) ∧
    ((∀ accepts target c, (Engine.iterative w).Reaches accepts target c →
      (c.asked.map Node.address).Nodup) ↔ w.alpha ≤ 1 ∨ w.k ≤ 1) := by
  refine ⟨fun accepts target c hreach => addresses_of_reaches hreach, ?_, ?_⟩
  · intro hnodup
    by_contra hwide
    obtain ⟨halpha, hk⟩ := not_or.1 hwide
    have htwins := hnodup _ _ _ (reaches_twinCourse (w := w))
    rw [asked_twinCourse (by omega) (by omega)] at htwins
    exact absurd htwins (by decide)
  · exact fun hnarrow accepts target c hreach => nodup_addresses_of_narrow hnarrow hreach

theorem addresses_asked_once_apart :
    let nodes : List Node :=
      [⟨default, Address.ofV4 10 0 0 1 6881, none⟩, ⟨⟨Octets.ofPadded [1]⟩, Address.ofV4 10 0 0 2 6881, none⟩]
    let c := Course.ask (Engine.iterative {})
      (Course.seed (Engine.iterative {}) (fun _ => true) nodes
        { state := (Engine.iterative {}).start default })
    c.state.stats.tried = 2 ∧ c.state.stats.tried = (c.asked.map Node.address).toFinset.card := by
  intro nodes c
  have hasked : c.asked = nodes := by decide
  have hspec := (addresses_asked_once_iff {}).1 _ _ c (.seed nodes .start)
  have htried : c.state.stats.tried = 2 := by
    rw [hspec.1, hasked]
    rfl
  refine ⟨htried, hspec.2.2.2.2.2 ?_⟩
  rw [hasked]
  decide

/-- In a lookup of default width, two starting nodes of one address are both asked, and counted as two. -/
theorem address_asked_twice :
    (Engine.iterative {}).Reaches (fun _ => true) default (twinCourse {}) ∧
      (twinCourse {}).asked.map Node.address = [default, default] ∧
      (twinCourse {}).state.stats.tried = 2 ∧
      ((twinCourse {}).asked.map Node.address).toFinset.card = 1 := by
  have hasked : (twinCourse {}).asked = twins := asked_twinCourse (by decide) (by decide)
  refine ⟨reaches_twinCourse, ?_, ?_, ?_⟩
  · rw [hasked]
    rfl
  · rw [reaches_twinCourse.addressesKept.tried, hasked]
    rfl
  · rw [hasked]
    rfl

end Iterative

end DhtStore
