import DhtStore.Engine.Sequential
import DhtStore.Proofs.Engine.Addresses
import Mathlib.Data.FinEnum
import Mathlib.Data.Fintype.BigOperators
import Mathlib.Data.Fintype.Vector

namespace DhtStore

variable {S : Type}

/-- What a discovery relies on in its engine. -/
structure Engine.Lawful (e : Engine S) : Prop where
  length_asked_le {accepts : Node → Bool} {target : NodeId} {c : Course S} :
    e.Reaches accepts target c → c.asked.length ≤ e.bound c.seeds
  /-- A lookup that was given no nodes asks none, not even when it is cut short. -/
  overrun_start (target : NodeId) : e.overrun (e.start target) = []

namespace NodeId

/-- There are as many ids as numbers of 160 bits. -/
theorem length_le_of_nodup {ids : List NodeId} (hnodup : ids.Nodup) : ids.length ≤ 1 <<< 160 := by
  let vector (a : NodeId) : List.Vector UInt8 20 := ⟨a.bytes, a.length_bytes⟩
  have hinjective : Function.Injective vector := fun a b heq => ext (congrArg Subtype.val heq)
  have hlength := (hnodup.map hinjective).length_le_card
  have hbytes : Fintype.card UInt8 = 2 ^ 8 := FinEnum.card_eq_fintypeCard.symm.trans FinEnum.card_UInt8
  rw [List.length_map, card_vector, hbytes] at hlength
  exact hlength

end NodeId

namespace Iterative

variable {w : Width} {accepts : Node → Bool} {target : NodeId} {c : Course Lookup}

/-- The nodes asked stay candidates, and no two of them share an id. -/
structure IdsKept (c : Course Lookup) : Prop where
  asked : ∀ node ∈ c.asked, node ∈ c.state.candidates.nodes
  ids : (c.asked.map Node.id).Nodup

namespace IdsKept

theorem start : IdsKept { state := (Engine.iterative w).start target } where
  asked _ hmem := by cases hmem
  ids := .nil

/-- A candidate that was asked was visited, so the nodes wanted next have other ids. -/
theorem ask (hkept : AddressesKept c) (hids : IdsKept c) : IdsKept (c.ask (Engine.iterative w)) where
  asked node hmem := by
    rw [Course.asked_ask] at hmem
    obtain hold | hnew := List.mem_append.1 hmem
    · exact hids.asked node hold
    · exact (c.state.mem_next w _ hnew).1
  ids := by
    have hwanted := (hkept.ask (w := w)).ids _ (List.mem_append_right _ (List.mem_singleton_self _))
    rw [Course.asked_ask, List.map_append]
    refine hids.ids.append hwanted ?_
    intro id hold hnew
    obtain ⟨old, hasked, rfl⟩ := List.mem_map.1 hold
    obtain ⟨node, hnode, hid⟩ := List.mem_map.1 hnew
    obtain ⟨hcandidate, hfresh⟩ := c.state.mem_next w _ hnode
    obtain rfl : node = old := List.inj_on_of_nodup_map hkept.candidates hcandidate (hids.asked old hasked) hid
    exact hfresh ((hkept.visited _).2 (List.mem_map_of_mem hasked))

theorem seed (hids : IdsKept c) (nodes : List Node) :
    IdsKept (c.seed (Engine.iterative w) accepts nodes) where
  asked node hmem := ClosestNodes.mem_addAll_of_mem (hids.asked node hmem)
  ids := hids.ids

theorem settle (hids : IdsKept c) (node : Node) (report : QueryReport) (others : List Node) :
    IdsKept (c.settle (Engine.iterative w) accepts node report others) where
  asked other hmem := by
    change other ∈ ((c.state.respond report.responder).candidates.addAll _).nodes
    rw [Lookup.candidates_respond]
    exact ClosestNodes.mem_addAll_of_mem (hids.asked other hmem)
  ids := hids.ids

end IdsKept

theorem idsKept_of_reaches (hreach : (Engine.iterative w).Reaches accepts target c) : IdsKept c := by
  have hboth : AddressesKept c ∧ IdsKept c :=
    hreach.invariant (I := fun c => AddressesKept c ∧ IdsKept c) ⟨.start, .start⟩
      (fun _ ⟨hkept, hids⟩ => ⟨hkept.ask, hids.ask hkept⟩)
      (fun _ nodes ⟨hkept, hids⟩ => ⟨hkept.seed nodes, hids.seed nodes⟩)
      (fun _ node report others _ ⟨hkept, hids⟩ =>
        ⟨hkept.settle node report others, hids.settle node report others⟩)
  exact hboth.2

end Iterative

theorem Engine.Lawful.iterative (w : Iterative.Width) : (Engine.iterative w).Lawful where
  length_asked_le hreach := by
    have hlength := NodeId.length_le_of_nodup (Iterative.idsKept_of_reaches hreach).ids
    rw [List.length_map] at hlength
    exact hlength
  overrun_start _ := rfl

namespace Sequential

variable {options : Options} {accepts : Node → Bool} {target : NodeId} {c : Course Walk}

theorem queue_settle (node : Node) (report : QueryReport) (walk : Walk) :
    (walk.settle options node report).queue = walk.queue := by
  unfold Walk.settle
  split
  · rfl
  · split <;> rfl

/-- Each node asked was taken from the queue, into which each node given was put at most once. -/
theorem length_asked_add_queue_le (hreach : (Engine.sequential options).Reaches accepts target c) :
    c.asked.length + c.state.queue.length ≤ c.seeds.length := by
  refine hreach.invariant (I := fun c => c.asked.length + c.state.queue.length ≤ c.seeds.length)
    (Nat.le_refl _) ?_ ?_ ?_
  · intro c hle
    rw [Course.asked_ask, List.length_append]
    change c.asked.length + (c.state.next c.inFlight.length).1.length +
      (c.state.next c.inFlight.length).2.queue.length ≤ c.seeds.length
    unfold Walk.next
    split
    · next node rest hqueue =>
      rw [hqueue, List.length_cons] at hle
      simpa [Nat.add_assoc, Nat.add_comm 1] using hle
    · exact hle
  · intro c nodes hle
    change c.asked.length + (c.state.queue ++ nodes.filter accepts).length ≤ (c.seeds ++ nodes).length
    rw [List.length_append, List.length_append]
    have hfilter := List.length_filter_le accepts nodes
    omega
  · intro c node report others _ hle
    change c.asked.length + (c.state.settle options node report).queue.length ≤ c.seeds.length
    rw [queue_settle]
    exact hle

end Sequential

theorem Engine.Lawful.sequential (options : Sequential.Options) :
    (Engine.sequential options).Lawful where
  length_asked_le hreach := by
    have hle := Sequential.length_asked_add_queue_le hreach
    exact Nat.le_trans (Nat.le_add_right _ _) hle
  overrun_start _ := rfl

end DhtStore
