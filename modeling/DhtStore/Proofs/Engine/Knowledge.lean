import DhtStore.Proofs.Engine.Addresses

namespace DhtStore

open Iterative

variable {w : Width} {accepts : Node → Bool} {target : NodeId} {c : Course Lookup}

namespace Iterative

/-- Every report is on record, and nothing else is. Of several nodes with one id the first is kept; a
    node named by a reply needs no place if its address was asked already. -/
structure Recorded (accepts : Node → Bool) (c : Course Lookup) : Prop where
  seeded : ∀ node ∈ c.seeds, accepts node = true →
    ∃ known ∈ c.state.candidates.nodes, known.id = node.id
  named : ∀ entry ∈ c.reports, ∀ node ∈ entry.2.closer, accepts node = true →
    node.address ∈ c.asked.map Node.address ∨ ∃ known ∈ c.state.candidates.nodes, known.id = node.id
  candidates : ∀ node ∈ c.state.candidates.nodes, accepts node = true ∧
    (node ∈ c.seeds ∨ ∃ entry ∈ c.reports, node ∈ entry.2.closer)
  vouched : ∀ entry ∈ c.reports, ∀ node, entry.2.responder = some node →
    ∃ known ∈ c.state.responders.nodes, known.id = node.id
  responders : ∀ known ∈ c.state.responders.nodes, ∃ entry ∈ c.reports, entry.2.responder = some known
  responses : c.state.stats.responses = (c.reports.filterMap fun entry => entry.2.responder).length

namespace Recorded

theorem start : Recorded accepts { state := (Engine.iterative w).start target } where
  seeded _ hmem := by cases hmem
  named _ hmem := by cases hmem
  candidates _ hmem := by cases hmem
  vouched _ hmem := by cases hmem
  responders _ hmem := by cases hmem
  responses := rfl

theorem ask (hrecorded : Recorded accepts c) : Recorded accepts (c.ask (Engine.iterative w)) where
  seeded := hrecorded.seeded
  named entry hentry node hnode haccepts := by
    refine (hrecorded.named entry hentry node hnode haccepts).imp_left fun hasked => ?_
    rw [Course.asked_ask, List.map_append]
    exact List.mem_append_left _ hasked
  candidates := hrecorded.candidates
  vouched := hrecorded.vouched
  responders := hrecorded.responders
  responses := hrecorded.responses

theorem seed (hrecorded : Recorded accepts c) (nodes : List Node) :
    Recorded accepts (c.seed (Engine.iterative w) accepts nodes) where
  seeded node hnode haccepts := by
    obtain hold | hnew := List.mem_append.1 hnode
    · obtain ⟨known, hknown, hid⟩ := hrecorded.seeded node hold haccepts
      exact ⟨known, ClosestNodes.mem_addAll_of_mem hknown, hid⟩
    · exact ClosestNodes.exists_id_addAll (List.mem_filter.2 ⟨hnew, haccepts⟩)
  named entry hentry node hnode haccepts := by
    refine (hrecorded.named entry hentry node hnode haccepts).imp_right ?_
    rintro ⟨known, hknown, hid⟩
    exact ⟨known, ClosestNodes.mem_addAll_of_mem hknown, hid⟩
  candidates node hnode := by
    obtain hold | hnew := ClosestNodes.mem_or_mem_of_mem_addAll hnode
    · obtain ⟨haccepts, hsource⟩ := hrecorded.candidates node hold
      exact ⟨haccepts, hsource.imp_left (List.mem_append_left _)⟩
    · obtain ⟨hmem, haccepts⟩ := List.mem_filter.1 hnew
      exact ⟨haccepts, .inl (List.mem_append_right _ hmem)⟩
  vouched := hrecorded.vouched
  responders := hrecorded.responders
  responses := hrecorded.responses

end Recorded

/-- Counting a responder in keeps those known, adds at most this one, and leaves none of its id out. -/
theorem Lookup.responders_respond (l : Lookup) (responder : Option Node) :
    (∀ known ∈ l.responders.nodes, known ∈ (l.respond responder).responders.nodes) ∧
      (∀ known ∈ (l.respond responder).responders.nodes,
        known ∈ l.responders.nodes ∨ responder = some known) ∧
      ∀ node, responder = some node →
        ∃ known ∈ (l.respond responder).responders.nodes, known.id = node.id := by
  cases responder with
  | none => exact ⟨fun _ hknown => hknown, fun _ hknown => .inl hknown, fun _ hnode => by cases hnode⟩
  | some node =>
    refine ⟨fun known hknown => ?_, fun known hknown => ?_, fun other hother => ?_⟩
    · exact ClosestNodes.mem_nodes_add.2 (.inl hknown)
    · obtain hold | ⟨rfl, _⟩ := ClosestNodes.mem_nodes_add.1 hknown
      · exact .inl hold
      · exact .inr rfl
    · cases hother
      exact l.responders.exists_id_add node

theorem Lookup.responses_respond (l : Lookup) (responder : Option Node) :
    (l.respond responder).stats.responses = l.stats.responses + responder.toList.length := by
  cases responder <;> rfl

namespace Recorded

/-- A node that the report names is known afterwards, or its address was visited and hence asked. -/
theorem settle (hkept : AddressesKept c) (hrecorded : Recorded accepts c) (node : Node)
    (report : QueryReport) (others : List Node) :
    Recorded accepts (c.settle (Engine.iterative w) accepts node report others) := by
  have hcandidates : (c.settle (Engine.iterative w) accepts node report others).state.candidates =
      c.state.candidates.addAll (report.closer.filter fun node =>
        !c.state.isVisited node && accepts node) := by
    change ((c.state.respond report.responder).seed _ report.closer).candidates = _
    rw [Lookup.candidates_seed, Lookup.candidates_respond]
  have hvisited (other : Node) : c.state.isVisited other = false ↔
      other.address ∉ c.asked.map Node.address := by
    rw [Lookup.isVisited_eq_false_iff, hkept.visited]
  obtain ⟨hkeep, hgain, hvouched⟩ := c.state.responders_respond report.responder
  refine ⟨?_, ?_, ?_, ?_, ?_, ?_⟩
  · intro seed hseed haccepts
    obtain ⟨known, hknown, hid⟩ := hrecorded.seeded seed hseed haccepts
    rw [hcandidates]
    exact ⟨known, ClosestNodes.mem_addAll_of_mem hknown, hid⟩
  · intro entry hentry named hnamed haccepts
    rw [hcandidates]
    obtain hold | hnew := List.mem_append.1 hentry
    · refine (hrecorded.named entry hold named hnamed haccepts).imp_right ?_
      rintro ⟨known, hknown, hid⟩
      exact ⟨known, ClosestNodes.mem_addAll_of_mem hknown, hid⟩
    · obtain rfl := List.mem_singleton.1 hnew
      by_cases hasked : named.address ∈ c.asked.map Node.address
      · exact .inl hasked
      · refine .inr (ClosestNodes.exists_id_addAll (List.mem_filter.2 ⟨hnamed, ?_⟩))
        rw [(hvisited named).2 hasked, haccepts]
        rfl
  · intro candidate hcandidate
    rw [hcandidates] at hcandidate
    obtain hold | hnew := ClosestNodes.mem_or_mem_of_mem_addAll hcandidate
    · obtain ⟨haccepts, hsource⟩ := hrecorded.candidates candidate hold
      refine ⟨haccepts, hsource.imp_right ?_⟩
      rintro ⟨entry, hentry, hcloser⟩
      exact ⟨entry, List.mem_append_left _ hentry, hcloser⟩
    · obtain ⟨hcloser, hboth⟩ := List.mem_filter.1 hnew
      exact ⟨(Bool.and_eq_true_iff.1 hboth).2,
        .inr ⟨(node, report), List.mem_append_right _ (List.mem_singleton_self _), hcloser⟩⟩
  · intro entry hentry responder hresponder
    obtain hold | hnew := List.mem_append.1 hentry
    · obtain ⟨known, hknown, hid⟩ := hrecorded.vouched entry hold responder hresponder
      exact ⟨known, hkeep known hknown, hid⟩
    · obtain rfl := List.mem_singleton.1 hnew
      exact hvouched responder hresponder
  · intro known hknown
    obtain hold | hnew := hgain known hknown
    · obtain ⟨entry, hentry, hresponder⟩ := hrecorded.responders known hold
      exact ⟨entry, List.mem_append_left _ hentry, hresponder⟩
    · exact ⟨(node, report), List.mem_append_right _ (List.mem_singleton_self _), hnew⟩
  · change (c.state.respond report.responder).stats.responses = _
    rw [Lookup.responses_respond, hrecorded.responses]
    change _ = ((c.reports ++ [(node, report)]).filterMap _).length
    cases hresponder : report.responder <;> simp [hresponder]

end Recorded

end Iterative

theorem Engine.Reaches.recorded (hreach : (Engine.iterative w).Reaches accepts target c) :
    Recorded accepts c := by
  have hboth : AddressesKept c ∧ Recorded accepts c :=
    hreach.invariant (I := fun c => AddressesKept c ∧ Recorded accepts c) ⟨.start, .start⟩
      (fun _ ⟨hkept, hrecorded⟩ => ⟨hkept.ask, hrecorded.ask⟩)
      (fun _ nodes ⟨hkept, hrecorded⟩ => ⟨hkept.seed nodes, hrecorded.seed nodes⟩)
      (fun _ node report others _ ⟨hkept, hrecorded⟩ =>
        ⟨hkept.settle node report others, hrecorded.settle hkept node report others⟩)
  exact hboth.2

/-- The responders are what the reports vouch for, in the order in which they were taken in. -/
theorem Iterative.responders_of_reaches (hreach : (Engine.iterative w).Reaches accepts target c) :
    c.state.responders =
      (ClosestNodes.empty target).addAll (c.reports.filterMap fun entry => entry.2.responder) := by
  refine hreach.invariant (I := fun c => c.state.responders =
    (ClosestNodes.empty target).addAll (c.reports.filterMap fun entry => entry.2.responder)) rfl ?_ ?_ ?_
  · exact fun _ hresponders => hresponders
  · exact fun _ _ hresponders => hresponders
  · intro c node report others _ hresponders
    change (c.state.respond report.responder).responders =
      (ClosestNodes.empty target).addAll ((c.reports ++ [(node, report)]).filterMap _)
    cases hresponder : report.responder with
    | none => simpa [Lookup.respond, hresponder] using hresponders
    | some responder => simp [Lookup.respond, hresponder, hresponders]

end DhtStore
