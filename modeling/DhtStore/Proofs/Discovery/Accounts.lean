import DhtStore.Proofs.Discovery.Closing
import DhtStore.Proofs.Reconciliation

namespace DhtStore

open Reader

variable {σ S ρ : Type}

namespace Search

/-- What the history of a discovery from `start` on accounts for. Items still on offer came at the
    present instant. -/
structure Accounts (s : Search σ S) (read : Reader ρ) (init : ρ) (start : Instant) (network : σ)
    (d : Discovery σ S ρ) : Prop where
  start_le : start ≤ d.now
  replayed : (s.transport.replay network d.history).2 = d.network
  /-- No call of get was dropped. -/
  called : d.history.called = d.history.asked
  requests : ∀ q ∈ s.transport.queries network d.history, q.request = s.request ∧ start ≤ q.start
  flights : (d.history.landings ++ d.inFlight).Perm
    ((s.transport.queries network d.history).map (Query.flight s.timeout))
  due : ∀ flight ∈ d.inFlight, d.now ≤ flight.due
  landed : ∀ flight ∈ d.history.landings, flight.due ≤ d.now
  items : (d.history.reads ++ d.offered.map fun offer => (d.now, offer.node, offer.item)).Perm
    (d.history.landings.filterMap fun flight => flight.offer? s.target s.salt)
  reader : readAll read init (d.history.reads.map fun entry => entry.2.2) = .reading d.reader

variable {s : Search σ S} {read : Reader ρ} {init : ρ} {start : Instant} {network : σ}
  {d : Discovery σ S ρ}

namespace Accounts

theorem unmoved (haccounts : s.Accounts read init start network d) (engine : S) (ended : List Flight)
    (seeded atEnd atEndLate : Bool) (moved : Nat) :
    s.Accounts read init start network { d with engine, ended, seeded, atEnd, atEndLate, moved } where
  start_le := haccounts.start_le
  replayed := haccounts.replayed
  called := haccounts.called
  requests := haccounts.requests
  flights := haccounts.flights
  due := haccounts.due
  landed := haccounts.landed
  items := haccounts.items
  reader := haccounts.reader

theorem ask (haccounts : s.Accounts read init start network d) (hlasting : s.lifetime.isOver d.now = false)
    (node : Node) : s.Accounts read init start network (s.ask d node) := by
  have hqueries : s.transport.queries network (d.history ++ [.asked d.now node s.request]) =
      s.transport.queries network d.history ++
        [⟨d.now, node, s.request, (s.transport.get d.now node.address s.request d.network).1⟩] := by
    rw [Transport.queries_asked, haccounts.replayed]
  rw [ask_of_lasting hlasting]
  have hlandings : History.landings (d.history ++ [.asked d.now node s.request]) = d.history.landings := by
    simp [Event.flight?]
  have hreads : History.reads (d.history ++ [.asked d.now node s.request]) = d.history.reads := by
    simp [Event.read?]
  refine ⟨haccounts.start_le, ?_, ?_, ?_, ?_, ?_, ?_, ?_, ?_⟩
  · change (s.transport.replay network (d.history ++ [.asked d.now node s.request])).2 = _
    rw [Transport.replay_append, haccounts.replayed]
    rfl
  · simp [Event.called?, Event.asked?, haccounts.called]
  · change ∀ q ∈ s.transport.queries network (d.history ++ [.asked d.now node s.request]), _
    rw [hqueries]
    intro q hq
    obtain hold | hnew := List.mem_append.1 hq
    · exact haccounts.requests q hold
    · obtain rfl := List.mem_singleton.1 hnew
      exact ⟨rfl, haccounts.start_le⟩
  · rw [hlandings]
    change (_ ++ (d.inFlight ++ _)).Perm
      ((s.transport.queries network (d.history ++ [.asked d.now node s.request])).map _)
    rw [hqueries, List.map_append, ← List.append_assoc]
    exact haccounts.flights.append_right _
  · intro flight hflight
    obtain hold | hnew := List.mem_append.1 hflight
    · exact haccounts.due flight hold
    · obtain rfl := List.mem_singleton.1 hnew
      exact Flight.start_le_due_depart
  · rw [hlandings]
    exact haccounts.landed
  · rw [hlandings, hreads]
    exact haccounts.items
  · rw [hreads]
    exact haccounts.reader

theorem foldl_ask (haccounts : s.Accounts read init start network d)
    (hlasting : s.lifetime.isOver d.now = false) (nodes : List Node) :
    s.Accounts read init start network (nodes.foldl s.ask d) := by
  induction nodes generalizing d with
  | nil => exact haccounts
  | cons node nodes ih => exact ih (haccounts.ask hlasting node) ((now_foldl_ask [node]).symm ▸ hlasting)

theorem advance (haccounts : s.Accounts read init start network d)
    (hlasting : s.lifetime.isOver d.now = false) : s.Accounts read init start network (s.advance d) := by
  let wanted := s.engine.next (d.inFlight.length + d.ended.length) d.engine
  have hwanted := haccounts.unmoved wanted.2 d.ended d.seeded d.atEnd d.atEndLate d.moved
  exact (hwanted.foldl_ask hlasting wanted.1).unmoved _ _ _ _ _ _

theorem begin (hlasting : s.lifetime.isOver start = false) :
    s.Accounts read init start network (s.begin start network init) := by
  refine advance ⟨Nat.le_refl _, rfl, rfl, ?_, .nil, ?_, ?_, .nil, rfl⟩ hlasting
  · intro q hq
    cases hq
  · intro flight hflight
    cases hflight
  · intro flight hflight
    cases hflight

/-- A query that ends moves from those in flight to those over, and its item is offered at once. -/
theorem land (haccounts : s.Accounts read init start network d) {flight : Flight} {rest : List Flight}
    (hflying : d.inFlight.Perm (flight :: rest)) (hdue : flight.due = d.now) :
    s.Accounts read init start network (s.land flight { d with inFlight := rest }) := by
  have hreplay : s.transport.replay network (s.land flight { d with inFlight := rest }).history =
      s.transport.replay network d.history := by
    simp [Search.land]
  have hqueries : s.transport.queries network (s.land flight { d with inFlight := rest }).history =
      s.transport.queries network d.history := congrArg Prod.fst hreplay
  have hlandings : (s.land flight { d with inFlight := rest }).history.landings =
      d.history.landings ++ [flight] := by
    simp [Search.land, Event.flight?, ← hdue]
  have hreads : (s.land flight { d with inFlight := rest }).history.reads = d.history.reads := by
    simp [Search.land, Event.read?]
  refine ⟨haccounts.start_le, ?_, ?_, ?_, ?_, ?_, ?_, ?_, ?_⟩
  · rw [hreplay]
    exact haccounts.replayed
  · simp [Search.land, Event.called?, Event.asked?, haccounts.called]
  · rw [hqueries]
    exact haccounts.requests
  · rw [hqueries, hlandings, List.append_assoc]
    exact (hflying.symm.append_left _).trans haccounts.flights
  · intro other hother
    exact haccounts.due other (hflying.mem_iff.2 (List.mem_cons_of_mem _ hother))
  · rw [hlandings]
    intro other hother
    obtain hold | hnew := List.mem_append.1 hother
    · exact haccounts.landed other hold
    · obtain rfl := List.mem_singleton.1 hnew
      exact Nat.le_of_eq hdue
  · rw [hlandings, hreads, List.filterMap_append]
    change (_ ++ (d.offered ++ _).map fun offer => (d.now, offer.node, offer.item)).Perm _
    rw [List.map_append, ← List.append_assoc]
    refine haccounts.items.append (.of_eq ?_)
    cases hitem : flight.item? s.target s.salt <;> simp [Flight.offer?, hitem, hdue]
  · rw [hreads]
    exact haccounts.reader

/-- The item taken first is read at the instant at which it came. -/
theorem take (haccounts : s.Accounts read init start network d) {offer : Offer} {rest : List Offer}
    {reader : ρ} (hoffered : d.offered = offer :: rest)
    (hread : read d.reader offer.item = .reading reader) :
    s.Accounts read init start network
      { Search.take offer { d with offered := rest } with reader } := by
  have hreplay : s.transport.replay network (d.history ++ [.read d.now offer.node offer.item]) =
      s.transport.replay network d.history := Transport.replay_concat_read ..
  have hqueries : s.transport.queries network (d.history ++ [.read d.now offer.node offer.item]) =
      s.transport.queries network d.history := congrArg Prod.fst hreplay
  have hlandings : History.landings (d.history ++ [.read d.now offer.node offer.item]) =
      d.history.landings := by
    simp [Event.flight?]
  have hreads : History.reads (d.history ++ [.read d.now offer.node offer.item]) =
      d.history.reads ++ [(d.now, offer.node, offer.item)] := by
    simp [Event.read?]
  refine ⟨haccounts.start_le, ?_, ?_, ?_, ?_, haccounts.due, ?_, ?_, ?_⟩
  · exact (congrArg Prod.snd hreplay).trans haccounts.replayed
  · simp [Search.take, Event.called?, Event.asked?, haccounts.called]
  · change ∀ q ∈ s.transport.queries network (d.history ++ [.read d.now offer.node offer.item]), _
    rw [hqueries]
    exact haccounts.requests
  · change (History.landings (d.history ++ [.read d.now offer.node offer.item]) ++ _).Perm
      ((s.transport.queries network (d.history ++ [.read d.now offer.node offer.item])).map _)
    rw [hqueries, hlandings]
    exact haccounts.flights
  · change ∀ flight ∈ History.landings (d.history ++ [.read d.now offer.node offer.item]), _
    rw [hlandings]
    exact haccounts.landed
  · change (History.reads (d.history ++ [.read d.now offer.node offer.item]) ++ _).Perm
      ((History.landings (d.history ++ [.read d.now offer.node offer.item])).filterMap _)
    rw [hreads, hlandings, List.append_assoc]
    have hitems := haccounts.items
    rw [hoffered] at hitems
    exact hitems
  · change readAll read init
      ((History.reads (d.history ++ [.read d.now offer.node offer.item])).map _) = _
    rw [hreads, List.map_append]
    exact (readAll_concat haccounts.reader _).trans hread

theorem pass (haccounts : s.Accounts read init start network d) {due : Instant}
    (hoffered : d.offered = []) (hsome : ∃ flight ∈ d.inFlight, flight.due = due)
    (hfirst : ∀ flight ∈ d.inFlight, due ≤ flight.due) :
    s.Accounts read init start network { d with now := due } := by
  have hlater : d.now ≤ due := by
    obtain ⟨flight, hflight, rfl⟩ := hsome
    exact haccounts.due flight hflight
  refine ⟨Nat.le_trans haccounts.start_le hlater, haccounts.replayed, haccounts.called, haccounts.requests,
    haccounts.flights, hfirst, ?_, ?_, haccounts.reader⟩
  · intro flight hflight
    exact Nat.le_trans (haccounts.landed flight hflight) hlater
  · have hitems := haccounts.items
    rw [hoffered] at hitems
    rw [hoffered]
    exact hitems

theorem step (hlasting : s.lifetime.isOver d.now = false) (haccounts : s.Accounts read init start network d)
    {next : Discovery σ S ρ} (hstep : s.Step read d (.going next)) :
    s.Accounts read init start network next := by
  have hmoved := haccounts.unmoved d.engine d.ended d.seeded d.atEnd d.atEndLate (d.moved + 1)
  cases hstep with
  | reading hoffered hread => exact hmoved.take hoffered hread
  | reported hended => exact (haccounts.unmoved _ _ d.seeded d.atEnd d.atEndLate (d.moved + 1)).advance hlasting
  | landed hflying hdue => exact hmoved.land hflying hdue
  | passed hoffered _ _ hsome hfirst _ => exact haccounts.pass hoffered hsome hfirst

end Accounts

end Search

end DhtStore
