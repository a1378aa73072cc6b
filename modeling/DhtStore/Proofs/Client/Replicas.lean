import DhtStore.Client
import DhtStore.Proofs.Discovery.Convergence

namespace DhtStore

open Iterative

/-- No report vouches for a node of this id. -/
def Course.IsSilent {S : Type} (c : Course S) (node : Node) : Prop :=
  ∀ entry ∈ c.reports, ∀ responder, entry.2.responder = some responder → responder.id ≠ node.id

namespace Iterative

variable {w : Width} {accepts : Node → Bool} {target : NodeId} {c : Course Lookup} {node : Node}

/-- A lookup has no room for a candidate: the `k` closest that it knows are others, which it asked. Where
    fewer nodes than these vouched for themselves, the rest of the `k` stayed silent. -/
structure Crowded (w : Width) (target : NodeId) (c : Course Lookup) (node : Node) : Prop where
  full : (c.state.candidates.nodes.take w.k).length = w.k
  closer : ∀ other ∈ c.state.candidates.nodes.take w.k, NodeId.CloserTo target other.id node.id
  asked : ∀ other ∈ c.state.candidates.nodes.take w.k, other.address ∈ c.asked.map Node.address
  silent : ∃ silent : List Node, silent.Sublist (c.state.candidates.nodes.take w.k) ∧
    (∀ other ∈ silent, c.IsSilent other) ∧ w.k ≤ (c.state.closest w).size + silent.length

/-- Each of the closest candidates stayed silent or shares its id with a responder of its own. -/
theorem exists_silent (hreach : (Engine.iterative w).Reaches accepts target c) :
    ∃ silent : List Node, silent.Sublist (c.state.candidates.nodes.take w.k) ∧
      (∀ other ∈ silent, c.IsSilent other) ∧
      (c.state.candidates.nodes.take w.k).length ≤ (c.state.closest w).size + silent.length := by
  let vouched (known : Node) : Bool := decide (known.id ∈ c.state.responders.nodes.map Node.id)
  let closest := c.state.candidates.nodes.take w.k
  refine ⟨closest.filter (!vouched ·), List.filter_sublist, ?_, ?_⟩
  · intro other hother entry hentry responder hresponder hid
    obtain ⟨known, hknown, hsame⟩ := hreach.recorded.vouched entry hentry responder hresponder
    have hvouched : vouched other = true :=
      decide_eq_true (List.mem_map.2 ⟨known, hknown, hsame.trans hid⟩)
    simpa [hvouched] using (List.mem_filter.1 hother).2
  · have hdistinct : ((closest.filter vouched).map Node.id).Nodup :=
      hreach.addressesKept.candidates.sublist
        ((List.filter_sublist.trans (List.take_sublist _ _)).map Node.id)
    have hsubset : (closest.filter vouched).map Node.id ⊆ c.state.responders.nodes.map Node.id := by
      intro id hid
      obtain ⟨known, hknown, rfl⟩ := List.mem_map.1 hid
      exact of_decide_eq_true (List.mem_filter.1 hknown).2
    have hresponders : (closest.filter vouched).length ≤ c.state.responders.nodes.length := by
      simpa using (List.subperm_of_subset hdistinct hsubset).length_le
    have hclosest : (closest.filter vouched).length ≤ w.k :=
      (List.length_filter_le ..).trans (List.length_take_le ..)
    have hsize : (c.state.closest w).size = min w.k c.state.responders.nodes.length := List.length_take
    have hsplit := List.length_eq_length_filter_add (l := closest) vouched
    change closest.length ≤ _
    omega

/-- A candidate is left unasked only for want of room among the closest. -/
theorem crowded_of_unasked (halpha : 0 < w.alpha) (hreach : (Engine.iterative w).Reaches accepts target c)
    (hquiet : c.inFlight = []) (hnode : node ∈ c.state.candidates.nodes)
    (hunasked : node.address ∉ c.asked.map Node.address) : Crowded w target c node := by
  have hasked := asked_of_quiet halpha hreach hquiet
  obtain ⟨hfull, hcloser⟩ := ClosestNodes.closer_of_not_mem_take (sorted_of_reaches hreach) hnode
    fun hfirst => hunasked (hasked node hfirst)
  obtain ⟨silent, hsublist, hsilent, hlength⟩ := exists_silent hreach
  exact ⟨hfull, hcloser, hasked, silent, hsublist, hsilent, hfull ▸ hlength⟩

/-- When a lookup stalls it has asked each node that it knows, unless the `k` closest of these fill its
    view: then these were asked and are closer than any that was not, and those of them by which the write
    set falls short of `k` stayed silent. Silent nodes, or nodes that do not exist, shrink the write set
    of a put in no other way. -/
theorem crowded_at_stall (halpha : 0 < w.alpha) :
    (∀ accepts target c, (Engine.iterative w).Reaches accepts target c → c.inFlight = [] →
      ∀ node ∈ c.state.candidates.nodes, node.address ∉ c.asked.map Node.address →
        Crowded w target c node) ∧
    ∀ {σ ρ : Type} (s : Search σ Lookup) (read : Reader ρ) (init : ρ) (start : Instant) (network : σ)
      (ending : Ending ρ) (last : Discovery σ Lookup ρ), s.engine = .iterative w →
      s.discover read init start network = (ending, last) → last.atEnd = true →
      ∃ c processed, s.Stalled network last c processed ∧
        ∀ node ∈ c.state.candidates.nodes, node.address ∉ c.asked.map Node.address →
          Crowded w s.target c node := by
  constructor
  · exact fun accepts target c hreach hquiet node => crowded_of_unasked halpha hreach hquiet
  · intro σ ρ s read init start network ending last hengine hdiscover hatEnd
    obtain ⟨-, -, c, processed, hstalled⟩ := Search.stalled_of_discover hdiscover hatEnd
    have hreach := hstalled.pursues.reaches
    rw [hengine] at hreach
    exact ⟨c, processed, hstalled, fun node => crowded_of_unasked halpha hreach hstalled.quiet⟩

/-- Of two nodes known to a lookup one node wide, the closer cannot be reached. -/
theorem crowded_at_stall_of_unreachable :
    let near : Node := ⟨default, Address.ofV4 10 0 0 1 6881, none⟩
    let far : Node := ⟨⟨Octets.ofPadded [1]⟩, Address.ofV4 10 0 0 2 6881, none⟩
    let network : ScriptedNetwork :=
      { nodes := [⟨far.address, [.after 10 (.ok { token := some ⟨[7]⟩ })], [.after 10 (.ok ())]⟩]
        start := [near, far] }
    let s : Search Unit Lookup :=
      { transport := network.transport 0, engine := .iterative ⟨1, 1⟩, timeout := 8000, lifetime := {}
        target := default, seq := none, salt := none }
    ∃ (last : Discovery Unit Lookup Seq) (c : Course Lookup) (processed : List Query),
      s.Stalled () last c processed ∧ Crowded ⟨1, 1⟩ s.target c far := by
  intro near far network s
  have hatEnd : (s.discover Reader.highestSeq 0 0 ()).2.atEnd = true := by decide +kernel
  have hknown : (s.discover Reader.highestSeq 0 0 ()).2.engine.candidates.nodes = [near, far] := by
    decide +kernel
  have hvisited : (s.discover Reader.highestSeq 0 0 ()).2.engine.visited = [near.address] := by
    decide +kernel
  cases hdiscover : s.discover Reader.highestSeq 0 0 () with
  | mk ending last =>
    rw [hdiscover] at hatEnd hknown hvisited
    obtain ⟨c, processed, hstalled, hcrowded⟩ := (crowded_at_stall (w := ⟨1, 1⟩) (by decide)).2 s
      Reader.highestSeq 0 0 () ending last rfl hdiscover hatEnd
    have hkept : AddressesKept c := hstalled.pursues.reaches.addressesKept
    refine ⟨last, c, processed, hstalled, hcrowded far ?_ ?_⟩
    · rw [hstalled.state, hknown]
      decide
    · rw [← hkept.visited, hstalled.state, hvisited]
      decide

/-- Twenty nodes that cannot be reached keep a put of default width from the one node that it knows
    besides, although that node answers: nothing is written. -/
theorem put_starved_by_unreachable :
    let value := Bytes.ofAscii "Hello World!"
    let target := immutableTarget value
    let dead (i : Nat) : Node :=
      ⟨target.xor ⟨Octets.ofPadded [.ofNat (i + 1)]⟩, Address.ofV4 10 0 1 (.ofNat (i + 1)) 6881, none⟩
    let live : Node := ⟨target.xor ⟨Octets.ofPadded [21]⟩, Address.ofV4 10 0 0 1 6881, none⟩
    let network : ScriptedNetwork :=
      { nodes := [⟨live.address, [.after 10 (.ok { token := some ⟨[7]⟩ })], [.after 10 (.ok ())]⟩]
        start := (List.range 20).map dead ++ [live] }
    let c : Client Unit Lookup := { transport := network.transport 0, engine := .iterative {} }
    let s := c.search {} target none none
    let last := (s.discover Reader.highestSeq 0 0 ()).2
    last.atEnd = true ∧ (s.engine.closest last.engine).size = 0 ∧ live ∈ last.engine.candidates.nodes ∧
      live.address ∉ last.history.gets.map (fun sent => sent.2.1) ∧
      (c.putImmutable {} value 0 ()).returned.map (fun (_, result) => result.toOption.map Receipt.writes) =
        some (some []) := by
  intro value target dead live network c s last
  decide +kernel

end Iterative

end DhtStore
