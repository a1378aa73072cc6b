import DhtStore.Proofs.Discovery.Accounts
import DhtStore.Proofs.Discovery.Course

namespace DhtStore

open Reader

variable {σ S ρ : Type}

namespace Search

variable {s : Search σ S} {read : Reader ρ} {init : ρ} {start : Instant} {network : σ}
  {d last : Discovery σ S ρ}

/-- The items that the queries of a history bring in time, each with the instant and the node. -/
def offers (s : Search σ S) (network : σ) (h : History) : List (Instant × Node × Item) :=
  (s.transport.queries network h).filterMap fun q => q.offer? s.timeout s.target s.salt

theorem Accounts.mem_offers (haccounts : s.Accounts read init start network d)
    {entry : Instant × Node × Item}
    (hentry : entry ∈ d.history.reads ++ d.offered.map fun offer => (d.now, offer.node, offer.item)) :
    entry ∈ s.offers network d.history ∧ entry.1 ≤ d.now := by
  obtain ⟨flight, hlanded, hoffer⟩ := List.mem_filterMap.1 (haccounts.items.mem_iff.1 hentry)
  have hflight := haccounts.flights.mem_iff.1 (List.mem_append_left d.inFlight hlanded)
  obtain ⟨q, hq, rfl⟩ := List.mem_map.1 hflight
  refine ⟨List.mem_filterMap.2 ⟨q, hq, ?_⟩, ?_⟩
  · rw [← Query.offer?_flight]
    exact hoffer
  · obtain ⟨item, _, rfl⟩ := Option.map_eq_some_iff.1 hoffer
    exact haccounts.landed _ hlanded

/-- Once no query is in flight and nothing is on offer, all that the queries bring is read. -/
theorem Accounts.reads_perm_offers (haccounts : s.Accounts read init start network d)
    (hoffered : d.offered = []) (hflying : d.inFlight = []) :
    d.history.reads.Perm (s.offers network d.history) := by
  have hitems := haccounts.items
  have hflights := haccounts.flights
  rw [hoffered, List.map_nil, List.append_nil] at hitems
  rw [hflying, List.append_nil] at hflights
  refine hitems.trans ((hflights.filterMap _).trans (.of_eq ?_))
  rw [List.filterMap_map]
  exact List.filterMap_congr fun q _ => q.offer?_flight s.timeout s.target s.salt

/-- The accounts of a discovery and the course of its engine are in order as long as its call lasts. -/
theorem discover_accounts {ending : Ending ρ}
    (hdiscover : s.discover read init start network = (ending, last)) :
    s.Interrupts (s.initial start network init) ending last ∨
    (ending = .endless ∧ s.Accounts read init start network last ∧
      ∃ c, s.engine.Reaches s.transport.accepts s.target c ∧ s.Follows network last c) ∨
    ∃ before, s.Leaves read before ending last ∧ s.Accounts read init start network before ∧
      ∃ c, s.engine.Reaches s.transport.accepts s.target c ∧ s.Follows network before c := by
  obtain hinterrupts | ⟨hending, -, haccounts⟩ | ⟨before, -, haccounts, hleaves⟩ :=
    discover_spec
      (P := fun d => s.Accounts read init start network d ∧
        ∃ c, s.engine.Reaches s.transport.accepts s.target c ∧ s.Follows network d c)
      (fun hlasting => ⟨.begin hlasting, follows_begin hlasting network init⟩)
      (fun hlasting ⟨haccounts, _, hreach, hfollows⟩ hstep =>
        ⟨haccounts.step hlasting hstep, hfollows.step hlasting hreach hstep⟩)
      hdiscover
  · exact .inl hinterrupts
  · exact .inr (.inl ⟨hending, haccounts⟩)
  · exact .inr (.inr ⟨before, hleaves, haccounts⟩)

/-- In the course of a discovery nothing is written. -/
def OnlyReads (d : Discovery σ S ρ) : Prop := ∀ event ∈ d.history, event.isWriting = false

namespace OnlyReads

theorem foldl_ask (honly : OnlyReads d) (nodes : List Node) : OnlyReads (nodes.foldl s.ask d) := by
  induction nodes generalizing d with
  | nil => exact honly
  | cons node nodes ih =>
    refine ih ?_
    cases hover : s.lifetime.isOver d.now with
    | true =>
      rw [ask_of_isOver hover]
      exact List.forall_mem_append.2 ⟨honly, by simp [Event.isWriting]⟩
    | false =>
      rw [ask_of_lasting hover]
      exact List.forall_mem_append.2 ⟨honly, by simp [Event.isWriting]⟩

theorem advance (honly : OnlyReads d) : OnlyReads (s.advance d) := by
  let wanted := s.engine.next (d.inFlight.length + d.ended.length) d.engine
  exact foldl_ask (s := s) (d := { d with engine := wanted.2 }) honly wanted.1

theorem take (honly : OnlyReads d) (offer : Offer) (rest : List Offer) (moved : Nat) :
    OnlyReads (Search.take offer { d with offered := rest, moved }) :=
  List.forall_mem_append.2 ⟨honly, by simp [Event.isWriting]⟩

theorem step {next : Discovery σ S ρ} (honly : OnlyReads d) (hstep : s.Step read d (.going next)) :
    OnlyReads next := by
  cases hstep with
  | @reading offer rest _ _ _ => exact honly.take offer rest _
  | @reported flight rest _ =>
    let engine := s.engine.settle s.transport.accepts flight.node flight.report d.engine
    exact advance (d := { d with engine, ended := rest, moved := d.moved + 1 }) honly
  | landed _ _ => exact List.forall_mem_append.2 ⟨honly, by simp [Event.isWriting]⟩
  | passed _ _ _ _ _ _ => exact honly

/-- Calls of get that are dropped are no writing either. -/
theorem of_kept (honly : OnlyReads d) (hkept : s.Kept d last) : OnlyReads last := by
  obtain ⟨nodes, hhistory⟩ := hkept.history
  unfold OnlyReads
  rw [hhistory]
  refine List.forall_mem_append.2 ⟨honly, fun event hevent => ?_⟩
  obtain ⟨node, -, rfl⟩ := List.mem_map.1 hevent
  rfl

end OnlyReads

theorem onlyReads_of_discover {ending : Ending ρ}
    (hdiscover : s.discover read init start network = (ending, last)) : OnlyReads last := by
  have hinitial : OnlyReads (s.initial start network init) := by simp [OnlyReads, initial]
  have hbegin : OnlyReads (s.begin start network init) := OnlyReads.advance (s := s) hinitial
  obtain hinterrupts | ⟨-, -, honly⟩ | ⟨before, -, honly, hleaves⟩ :=
    discover_spec (fun _ => hbegin) (fun _ => OnlyReads.step) hdiscover
  · exact hinitial.of_kept hinterrupts.kept
  · exact honly
  · cases hleaves with
    | step hstep =>
      cases hstep with
      | @resolved offer rest _ _ _ => exact honly.take offer rest _
      | exhausted _ _ | endless _ _ _ _ _ => exact honly
    | @waited limit _ hinterrupts =>
      have hwaiting : OnlyReads { before with now := limit } := honly
      exact hwaiting.of_kept hinterrupts.kept

theorem not_isWriting_of_mem_overrun {ending : Ending ρ} {event : Event}
    (hmem : event ∈ s.overrun ending d) : event.isWriting = false := by
  unfold overrun at hmem
  split at hmem
  · obtain ⟨node, -, rfl⟩ := List.mem_map.1 hmem
    rfl
  · cases hmem

theorem Kept.queries (hkept : s.Kept d last) :
    s.transport.queries network last.history = s.transport.queries network d.history := by
  obtain ⟨nodes, hhistory⟩ := hkept.history
  simp [hhistory, Transport.queries]

theorem Kept.landings (hkept : s.Kept d last) : last.history.landings = d.history.landings := by
  obtain ⟨nodes, hhistory⟩ := hkept.history
  simp [hhistory]

theorem engine_of_ended {ending : Ending ρ} (hstep : s.Step read d (.ended ending last)) :
    last.engine = d.engine := by
  cases hstep <;> rfl

/-- No query is sent as a discovery ends. -/
theorem queries_of_leaves {ending : Ending ρ} (hleaves : s.Leaves read d ending last) :
    s.transport.queries network last.history = s.transport.queries network d.history := by
  cases hleaves with
  | step hstep =>
    cases hstep with
    | resolved _ _ => simp [Search.take, Transport.queries]
    | exhausted _ _ | endless _ _ _ _ _ => rfl
  | waited _ hinterrupts => exact hinterrupts.kept.queries

theorem landings_of_leaves {ending : Ending ρ} (hleaves : s.Leaves read d ending last) :
    last.history.landings = d.history.landings := by
  cases hleaves with
  | step hstep => cases hstep <;> simp [Search.take, Event.flight?]
  | waited _ hinterrupts => exact hinterrupts.kept.landings

/-- However a discovery ends, all its queries ask for the same, from its beginning on. -/
theorem requests_of_discover {ending : Ending ρ}
    (hdiscover : s.discover read init start network = (ending, last)) :
    ∀ q ∈ s.transport.queries network last.history, q.request = s.request ∧ start ≤ q.start := by
  obtain hinterrupts | ⟨_, haccounts, _⟩ | ⟨before, hleaves, haccounts, _⟩ :=
    discover_accounts hdiscover
  · rw [hinterrupts.kept.queries]
    exact fun q hq => absurd hq List.not_mem_nil
  · exact haccounts.requests
  · rw [queries_of_leaves hleaves]
    exact haccounts.requests

theorem resolved_spec {item : Item}
    (hdiscover : s.discover read init start network = (.resolved item, last)) :
    ∃ state time node held, read state held = .resolved item ∧
      (time, node, held) ∈ s.offers network last.history ∧ time ≤ last.now := by
  obtain hinterrupts | ⟨hending, _⟩ | ⟨before, hleaves, haccounts, _⟩ := discover_accounts hdiscover
  · cases hinterrupts.not_natural
  · cases hending
  · have hqueries : s.transport.queries network last.history =
        s.transport.queries network before.history := queries_of_leaves hleaves
    cases hleaves with
    | step hstep =>
      cases hstep with
      | @resolved offer rest _ hoffered hread =>
        have hentry : (before.now, offer.node, offer.item) ∈ before.history.reads ++
            before.offered.map fun offer => (before.now, offer.node, offer.item) := by
          rw [hoffered]
          simp
        obtain ⟨hoffers, hnow⟩ := haccounts.mem_offers hentry
        unfold offers at hoffers ⊢
        rw [← hqueries] at hoffers
        exact ⟨before.reader, _, offer.node, offer.item, hread, hoffers, hnow⟩
    | waited _ hinterrupts => cases hinterrupts.not_natural

/-- A discovery that is exhausted has no query in flight, no report to take in and no item on offer. -/
theorem exhausted_spec {state : ρ}
    (hdiscover : s.discover read init start network = (.exhausted state, last)) :
    s.Accounts read init start network last ∧ last.offered = [] ∧ last.inFlight = [] ∧
      last.ended = [] ∧ last.reader = state ∧
      ∃ c, s.engine.Reaches s.transport.accepts s.target c ∧ s.Follows network last c := by
  obtain hinterrupts | ⟨hending, _⟩ | ⟨before, hleaves, haccounts, c, hreach, hfollows⟩ :=
    discover_accounts hdiscover
  · cases hinterrupts.not_natural
  · cases hending
  · cases hleaves with
    | step hstep =>
      cases hstep with
      | exhausted hoffered hatEnd =>
        obtain ⟨hflying, hended⟩ := hfollows.atEnd hatEnd
        have hlast := haccounts.unmoved before.engine before.ended before.seeded before.atEnd before.atEndLate
          (before.moved + 1)
        exact ⟨hlast, hoffered, hflying, hended, rfl, c, hreach, hfollows.state, hfollows.seeds,
          hfollows.inFlight, hfollows.asked, hfollows.reports, hfollows.atEnd⟩
    | waited _ hinterrupts => cases hinterrupts.not_natural

/-- An exhausted search for the best item kept none exactly if none came in time; else it kept a mutable
    item with a sequence number that none of the others exceeds. -/
theorem best_of_exhausted {kept : Option MutableItem} {d : Discovery σ S (Option MutableItem)}
    (hdiscover : s.discover best none start network = (.exhausted kept, d)) :
    (kept = none ↔ s.offers network d.history = []) ∧ ∀ item, kept = some item →
      (∃ arrival node, arrival ≤ d.now ∧ (arrival, node, .mutable item) ∈ s.offers network d.history) ∧
        ∀ arrival node other, (arrival, node, .mutable other) ∈ s.offers network d.history →
          other.seq ≤ item.seq := by
  obtain ⟨haccounts, hoffered, hflying, -, hkept, -⟩ := exhausted_spec hdiscover
  have hreads := haccounts.reads_perm_offers hoffered hflying
  have hreader := haccounts.reader
  rw [hkept] at hreader
  obtain ⟨-, hnone, hbest⟩ := best_of_reading hreader
  constructor
  · rw [hnone, List.map_eq_nil_iff]
    constructor
    · intro hempty
      rw [hempty] at hreads
      exact hreads.nil_eq.symm
    · intro hempty
      rw [hempty] at hreads
      exact hreads.eq_nil
  · intro item hitem
    obtain ⟨hread, hhighest⟩ := hbest item hitem
    constructor
    · obtain ⟨⟨arrival, node, _⟩, hentry, rfl⟩ := List.mem_map.1 hread
      obtain ⟨hoffer, harrival⟩ := haccounts.mem_offers (List.mem_append_left _ hentry)
      exact ⟨arrival, node, harrival, hoffer⟩
    · intro arrival node other hother
      exact hhighest other (List.mem_map.2 ⟨_, hreads.mem_iff.2 hother, rfl⟩)

end Search

end DhtStore
