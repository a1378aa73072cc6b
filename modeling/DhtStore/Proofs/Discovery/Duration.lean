import DhtStore.Proofs.Discovery.Convergence
import DhtStore.Proofs.Discovery.Timing

namespace DhtStore

variable {σ S ρ : Type}

theorem Flight.due_depart_le {start timeout : Nat} {node : Node} {delivery : Delivery GetReply} :
    (depart start timeout node delivery).due ≤ start + timeout := by
  unfold depart
  split
  · exact Nat.le_refl _
  · next delay answer =>
    split
    · exact Nat.le_refl _
    · next hearly =>
      have hdelay : delay ≤ timeout := Nat.not_lt.1 hearly
      split <;> exact Nat.add_le_add_left hdelay start

namespace Search

variable {s : Search σ S} {read : Reader ρ} {init : ρ} {start : Instant} {network : σ}
  {d next last : Discovery σ S ρ} {ending : Ending ρ}

/-- For each query that is over a discovery took the timeout at most. It is later than that only while it
    waits for a query that is due. -/
structure Paced (s : Search σ S) (start : Instant) (d : Discovery σ S ρ) : Prop where
  due : ∀ flight ∈ d.inFlight, flight.due ≤ start + (d.history.landings.length + 1) * s.timeout
  now : d.now ≤ start + d.history.landings.length * s.timeout ∨
    d.offered = [] ∧ d.ended = [] ∧ ∃ flight ∈ d.inFlight, flight.due = d.now

theorem due_foldl_ask_le {limit : Instant} (nodes : List Node) (hnow : d.now + s.timeout ≤ limit)
    (hdue : ∀ flight ∈ d.inFlight, flight.due ≤ limit) :
    ∀ flight ∈ (nodes.foldl s.ask d).inFlight, flight.due ≤ limit := by
  induction nodes generalizing d with
  | nil => exact hdue
  | cons node nodes ih =>
    have hsame : (s.ask d node).now = d.now := now_foldl_ask [node]
    obtain ⟨delivery, hflying⟩ := s.exists_inFlight_ask d node
    refine ih (d := s.ask d node) (hsame ▸ hnow) ?_
    rw [hflying]
    refine List.forall_mem_append.2 ⟨hdue, fun flight hflight => ?_⟩
    obtain rfl := List.mem_singleton.1 hflight
    exact Nat.le_trans Flight.due_depart_le hnow

namespace Paced

/-- Queries that begin in time are over in time. -/
theorem advance
    (hdue : ∀ flight ∈ d.inFlight, flight.due ≤ start + (d.history.landings.length + 1) * s.timeout)
    (hnow : d.now ≤ start + d.history.landings.length * s.timeout) : s.Paced start (s.advance d) := by
  let wanted := s.engine.next (d.inFlight.length + d.ended.length) d.engine
  have hlandings : (s.advance d).history.landings = d.history.landings := by simp [Search.advance]
  constructor
  · rw [hlandings]
    refine due_foldl_ask_le (d := { d with engine := wanted.2 }) wanted.1 ?_ hdue
    rw [Nat.add_one_mul, ← Nat.add_assoc]
    exact Nat.add_le_add_right hnow _
  · rw [hlandings, now_advance]
    exact .inl hnow

theorem begin : s.Paced start (s.begin start network init) := by
  refine advance ?_ (Nat.le_add_right ..)
  intro flight hflight
  cases hflight

theorem now_le_of_offered (hpaced : s.Paced start d) (hsome : d.offered ≠ []) :
    d.now ≤ start + d.history.landings.length * s.timeout :=
  hpaced.now.resolve_right fun hwaiting => hsome hwaiting.1

theorem now_le_of_ended (hpaced : s.Paced start d) (hsome : d.ended ≠ []) :
    d.now ≤ start + d.history.landings.length * s.timeout :=
  hpaced.now.resolve_right fun hwaiting => hsome hwaiting.2.1

theorem take (hpaced : s.Paced start d) {offer : Offer} {rest : List Offer}
    (hoffered : d.offered = offer :: rest) (moved : Nat) (reader : ρ) :
    s.Paced start { Search.take offer { d with offered := rest, moved } with reader } := by
  have hlandings : History.landings (d.history ++ [.read d.now offer.node offer.item]) =
      d.history.landings := by
    simp [Event.flight?]
  have hnow := hpaced.now_le_of_offered (by simp [hoffered])
  rw [← hlandings] at hnow
  refine ⟨?_, .inl hnow⟩
  change ∀ flight ∈ d.inFlight, flight.due ≤
    start + ((History.landings (d.history ++ [.read d.now offer.node offer.item])).length + 1) * s.timeout
  rw [hlandings]
  exact hpaced.due

theorem land (hpaced : s.Paced start d) {flight : Flight} {rest : List Flight}
    (hflying : d.inFlight.Perm (flight :: rest)) (hdue : flight.due = d.now) (moved : Nat) :
    s.Paced start (s.land flight { d with inFlight := rest, moved }) := by
  have hlandings : (s.land flight { d with inFlight := rest, moved }).history.landings.length =
      d.history.landings.length + 1 := by
    simp [Search.land, Event.flight?]
  have hbefore : ∀ other ∈ flight :: rest,
      other.due ≤ start + (d.history.landings.length + 1) * s.timeout :=
    fun other hother => hpaced.due other (hflying.mem_iff.2 hother)
  obtain ⟨hflight, hrest⟩ := List.forall_mem_cons.1 hbefore
  constructor
  · rw [hlandings]
    intro other hother
    refine Nat.le_trans (hrest other hother) (Nat.add_le_add_left ?_ start)
    exact Nat.mul_le_mul_right _ (Nat.le_succ _)
  · left
    rw [hlandings]
    exact hdue ▸ hflight

theorem step (hpaced : s.Paced start d) (hstep : s.Step read d (.going next)) : s.Paced start next := by
  cases hstep with
  | reading hoffered _ => exact hpaced.take hoffered _ _
  | @reported flight rest hended =>
    have hsome : d.ended ≠ [] := by
      rintro hnone
      rw [hnone] at hended
      exact List.cons_ne_nil _ _ hended.nil_eq.symm
    exact advance hpaced.due (hpaced.now_le_of_ended hsome)
  | landed hflying hdue => exact hpaced.land hflying hdue _
  | passed hoffered hended _ hsome _ _ => exact ⟨hpaced.due, .inr ⟨hoffered, hended, hsome⟩⟩

/-- A discovery that is cut short while queries are in flight is so before the first of them is over. -/
theorem now_le_of_leaves (hpaced : s.Paced start d) (hunderWay : s.UnderWay d)
    (hquiet : d.atEnd = true → d.inFlight = []) (hnotSilent : s.engine.atEnd ≠ .hang)
    (hleaves : s.Leaves read d ending last) :
    last.now ≤ start + (d.history.landings.length + d.inFlight.length) * s.timeout := by
  have hmore : start + d.history.landings.length * s.timeout ≤
      start + (d.history.landings.length + d.inFlight.length) * s.timeout :=
    Nat.add_le_add_left (Nat.mul_le_mul_right _ (Nat.le_add_right ..)) start
  cases hleaves with
  | step hstep =>
    cases hstep with
    | resolved hoffered _ => exact Nat.le_trans (hpaced.now_le_of_offered (by simp [hoffered])) hmore
    | exhausted _ hatEnd =>
      obtain hnow | ⟨-, -, flight, hflight, -⟩ := hpaced.now
      · exact Nat.le_trans hnow hmore
      · rw [hquiet hatEnd] at hflight
        cases hflight
    | endless _ hended hflying hatEnd _ => exact absurd (hunderWay.silent hflying hended hatEnd) hnotSilent
  | @waited limit hwaits hinterrupts =>
    have hnow : last.now = limit := hinterrupts.kept.now
    cases hflying : d.inFlight with
    | nil => exact absurd (hunderWay.silent hflying hwaits.ended hwaits.atEnd) hnotSilent
    | cons flight rest =>
      have hflight : flight ∈ d.inFlight := by simp [hflying]
      rw [hnow]
      refine Nat.le_trans (hwaits.late flight hflight) (Nat.le_trans (hpaced.due flight hflight) ?_)
      refine Nat.add_le_add_left (Nat.mul_le_mul_right _ (Nat.add_le_add_left ?_ _)) start
      exact Nat.succ_pos rest.length

end Paced

theorem Accounts.length_asked (haccounts : s.Accounts read init start network d) :
    d.history.landings.length + d.inFlight.length = d.history.asked.length := by
  have hlength := haccounts.flights.length_eq
  rwa [List.length_append, List.length_map, ← List.length_map Query.node,
    History.map_node_queries] at hlength

theorem Kept.asked (hkept : s.Kept d last) : last.history.asked = d.history.asked := by
  obtain ⟨nodes, hhistory⟩ := hkept.history
  simp [hhistory]

/-- However a discovery ends, it took no longer than its queries would take one after the other. -/
theorem now_le_of_discover (hlawful : s.engine.Lawful) (hnotSilent : s.engine.atEnd ≠ .hang)
    (hdiscover : s.discover read init start network = (ending, last)) :
    last.now ≤ start + last.history.asked.length * s.timeout := by
  obtain ⟨_, -, hinterrupts⟩ |
    ⟨hlasting, before, -, ⟨hunderWay, hpaced⟩, hleaves, -, haccounts, c, -, hfollows⟩ := discover_ends
      (P := fun d => s.UnderWay d ∧ s.Paced start d) hlawful (fun hlasting => ⟨.advance hlasting, .begin⟩)
      (fun hlasting ⟨hunderWay, hpaced⟩ hstep => ⟨hunderWay.step hlasting hstep, hpaced.step hstep⟩) hdiscover
  · rw [hinterrupts.kept.now]
    exact Nat.le_add_right ..
  · have hquiet : before.atEnd = true → before.inFlight = [] := fun hatEnd => (hfollows.atEnd hatEnd).1
    have hqueries : s.transport.queries network last.history = s.transport.queries network before.history :=
      queries_of_leaves hleaves
    rw [← History.map_node_queries s.transport network, hqueries, History.map_node_queries,
      ← haccounts.length_asked]
    exact hpaced.now_le_of_leaves hunderWay hquiet hnotSilent hleaves

/-- A discovery that nothing cuts short ends as its reader or its engine has it. -/
theorem ends_of_forever (hlawful : s.engine.Lawful) (hnotSilent : s.engine.atEnd ≠ .hang)
    (hforever : s.lifetime.endsAt? = none)
    (hdiscover : s.discover read init start network = (ending, last)) :
    (∃ item, ending = .resolved item) ∨ ∃ state, ending = .exhausted state ∧ last.atEnd = true := by
  have hnatural := natural_of_forever hlawful hnotSilent hforever hdiscover
  cases ending with
  | resolved item => exact .inl ⟨item, rfl⟩
  | exhausted state => exact .inr ⟨state, rfl, atEnd_of_exhausted hdiscover⟩
  | interrupted reason => cases hnatural
  | endless => cases hnatural

/-- Each query that is over in the course of a discovery ended as its answer and the timeout decide. -/
theorem landings_of_discover (hdiscover : s.discover read init start network = (ending, last)) :
    ∃ flying, (last.history.landings ++ flying).Perm
      ((s.transport.queries network last.history).map (Query.flight s.timeout)) := by
  obtain hinterrupts | ⟨_, haccounts, _⟩ | ⟨before, hleaves, haccounts, _⟩ := discover_accounts hdiscover
  · rw [hinterrupts.kept.landings, hinterrupts.kept.queries]
    exact ⟨[], .nil⟩
  · exact ⟨_, haccounts.flights⟩
  · rw [landings_of_leaves hleaves, queries_of_leaves hleaves]
    exact ⟨_, haccounts.flights⟩

end Search

namespace Search

open Iterative

variable {w : Width} {s : Search σ Lookup} {read : Reader ρ} {init : ρ} {start : Instant} {network : σ}
  {last : Discovery σ Lookup ρ} {ending : Ending ρ}

/-- The ids of the nodes that a discovery begins with and of those named in reply to its queries. -/
def idsHeard (s : Search σ Lookup) (network : σ) (h : History) : Finset NodeId :=
  ((s.heard network (s.transport.queries network h)).map Node.id).toFinset

/-- What the queries of a discovery amount to that began at `start`. -/
structure Bounded (s : Search σ Lookup) (start : Instant) (network : σ) (d : Discovery σ Lookup ρ) :
    Prop where
  ids_once : (d.history.asked.map Node.id).Nodup
  ids_heard : ∀ node ∈ d.history.asked, node.id ∈ s.idsHeard network d.history
  asked_le : d.history.asked.length ≤ (s.idsHeard network d.history).card
  landings_le : d.history.landings.length ≤ (s.idsHeard network d.history).card
  /-- A query that is over was so no later than its timeout after it began. -/
  landed : ∀ flight ∈ d.history.landings, ∃ q ∈ s.transport.queries network d.history,
    flight = q.flight s.timeout ∧ flight.due ≤ q.start + s.timeout
  now_le : d.now ≤ start + (s.idsHeard network d.history).card * s.timeout

/-- The iterative engine asks nodes that it heard of, and of those with one id only one. -/
theorem asked_of_discover (hengine : s.engine = .iterative w)
    (hdiscover : s.discover read init start network = (ending, last)) :
    (last.history.asked.map Node.id).Nodup ∧
      ∀ node ∈ last.history.asked, node ∈ s.heard network (s.transport.queries network last.history) := by
  have hcourse {d : Discovery σ Lookup ρ} (haccounts : s.Accounts read init start network d)
      {c : Course Lookup} (hreach : s.engine.Reaches s.transport.accepts s.target c)
      (hfollows : s.Follows network d c) :
      (d.history.asked.map Node.id).Nodup ∧
        ∀ node ∈ d.history.asked, node ∈ s.heard network (s.transport.queries network d.history) := by
    rw [hengine] at hreach
    have hids := idsKept_of_reaches hreach
    rw [← hfollows.asked]
    refine ⟨hids.ids, fun node hnode => ?_⟩
    obtain ⟨-, hseed | ⟨entry, hentry, hcloser⟩⟩ := hreach.recorded.candidates node (hids.asked node hnode)
    · exact List.mem_append_left _ (hfollows.seeds ▸ hseed)
    · have hlanded := hfollows.reports.mem_iff.1 (List.mem_append_left _ hentry)
      obtain ⟨flight, hflight, rfl⟩ := List.mem_map.1 hlanded
      obtain ⟨q, hq, rfl⟩ := List.mem_map.1 (haccounts.flights.mem_iff.1 (List.mem_append_left _ hflight))
      refine List.mem_append_right _ (List.mem_flatMap.2 ⟨q, hq, ?_⟩)
      rw [← q.report_flight]
      exact hcloser
  obtain hinterrupts | ⟨_, haccounts, c, hreach, hfollows⟩ |
    ⟨before, hleaves, haccounts, c, hreach, hfollows⟩ := discover_accounts hdiscover
  · rw [hinterrupts.kept.asked]
    exact ⟨.nil, fun _ hmem => absurd hmem List.not_mem_nil⟩
  · exact hcourse haccounts hreach hfollows
  · rw [← History.map_node_queries s.transport network, queries_of_leaves hleaves, History.map_node_queries]
    exact hcourse haccounts hreach hfollows

theorem not_hang (hengine : s.engine = .iterative w) : s.engine.atEnd ≠ .hang := by
  rw [hengine]
  nofun

/-- With the iterative engine every discovery ends. -/
theorem not_endless (hengine : s.engine = .iterative w)
    (hdiscover : s.discover read init start network = (ending, last)) : ending ≠ .endless := by
  rintro rfl
  exact not_hang hengine (silent_of_endless (hengine ▸ .iterative w) hdiscover).1

theorem bounded_of_discover (hengine : s.engine = .iterative w)
    (hdiscover : s.discover read init start network = (ending, last)) : s.Bounded start network last := by
  have hlawful : s.engine.Lawful := hengine ▸ .iterative w
  obtain ⟨hnodup, hheard⟩ := asked_of_discover hengine hdiscover
  obtain ⟨flying, hflights⟩ := landings_of_discover hdiscover
  have hids : ∀ node ∈ last.history.asked, node.id ∈ s.idsHeard network last.history :=
    fun node hnode => List.mem_toFinset.2 (List.mem_map_of_mem (hheard node hnode))
  have hasked : last.history.asked.length ≤ (s.idsHeard network last.history).card := by
    rw [← List.length_map Node.id, ← List.toFinset_card_of_nodup hnodup]
    refine Finset.card_le_card fun id hid => ?_
    obtain ⟨node, hnode, rfl⟩ := List.mem_map.1 (List.mem_toFinset.1 hid)
    exact hids node hnode
  have hlandings : last.history.landings.length ≤ last.history.asked.length := by
    have hlength := hflights.length_eq
    rw [List.length_append, List.length_map, ← List.length_map Query.node,
      History.map_node_queries] at hlength
    exact hlength ▸ Nat.le_add_right ..
  refine ⟨hnodup, hids, hasked, Nat.le_trans hlandings hasked, ?_, ?_⟩
  · intro flight hflight
    obtain ⟨q, hq, rfl⟩ := List.mem_map.1 (hflights.mem_iff.1 (List.mem_append_left _ hflight))
    exact ⟨q, hq, rfl, Flight.due_depart_le⟩
  · refine Nat.le_trans (now_le_of_discover hlawful (not_hang hengine) hdiscover) ?_
    exact Nat.add_le_add_left (Nat.mul_le_mul_right _ hasked) start

end Search

end DhtStore
