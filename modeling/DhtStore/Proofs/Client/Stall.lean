import DhtStore.Proofs.Client.Get
import DhtStore.Proofs.Discovery.Timeout
import DhtStore.Proofs.Engine.Knowledge

namespace DhtStore

open Reader

variable {σ ρ : Type}

/-- How a discovery stands that left nothing undone. -/
structure Search.Complete (s : Search σ Iterative.Lookup) (read : Reader ρ) (init state : ρ)
    (start : Instant) (network : σ) (d : Discovery σ Iterative.Lookup ρ) : Prop where
  /-- Every query is over, and ended as its answer and the timeout decide. -/
  landings : d.history.landings.Perm
    ((s.transport.queries network d.history).map (Query.flight s.timeout))
  /-- Every valid item that came before the timeout was read exactly once, at the instant it came. -/
  reads : d.history.reads.Perm (s.offers network d.history)
  early : ∀ entry ∈ d.history.reads, entry.1 ≤ d.now
  reader : readAll read init (d.history.reads.map fun entry => entry.2.2) = .reading state
  /-- Of every reply that came no later than the timeout, the engine took in token and nodes. -/
  course : ∃ c, s.engine.Reaches s.transport.accepts s.target c ∧ c.state = d.engine ∧
    c.seeds = s.transport.startingNodes network ∧
    c.asked = (s.transport.queries network d.history).map Query.node ∧
    c.reports.Perm ((s.transport.queries network d.history).map fun q => (q.node, q.report s.timeout)) ∧
    Iterative.Recorded s.transport.accepts c
  /-- Later replies might as well not have come. -/
  cutOff : s.cutOff.discover read init start network = (.exhausted state, d)

namespace Search

variable {s : Search σ Iterative.Lookup} {read : Reader ρ} {init state : ρ} {start : Instant}
  {network : σ} {d : Discovery σ Iterative.Lookup ρ}

theorem complete_of_exhausted {w : Iterative.Width} (hengine : s.engine = .iterative w)
    (hdiscover : s.discover read init start network = (.exhausted state, d)) :
    s.Complete read init state start network d := by
  obtain ⟨haccounts, hoffered, hflying, hended, hstate, c, hreach, hfollows⟩ :=
    exhausted_spec hdiscover
  have hlandings : d.history.landings.Perm
      ((s.transport.queries network d.history).map (Query.flight s.timeout)) := by
    have hflights := haccounts.flights
    rwa [hflying, List.append_nil] at hflights
  refine ⟨hlandings, haccounts.reads_perm_offers hoffered hflying, ?_, ?_, ?_, ?_⟩
  · intro entry hentry
    exact (haccounts.mem_offers (List.mem_append_left _ hentry)).2
  · rw [haccounts.reader, hstate]
  · have hasked : c.asked = (s.transport.queries network d.history).map Query.node := by
      rw [hfollows.asked, History.map_node_queries]
    have hreports : c.reports.Perm
        ((s.transport.queries network d.history).map fun q => (q.node, q.report s.timeout)) := by
      have hentries := hfollows.reports
      rw [hended, List.map_nil, List.append_nil] at hentries
      refine hentries.trans ((hlandings.map Flight.entry).trans (.of_eq ?_))
      rw [List.map_map]
      refine List.map_congr_left fun q _ => ?_
      simp [Flight.entry, Query.report_flight]
    refine ⟨c, hreach, hfollows.state, hfollows.seeds, hasked, hreports, ?_⟩
    rw [hengine] at hreach
    exact hreach.recorded
  · rw [discover_cutOff]
    exact hdiscover

end Search

/-- No item is lost before a stall, however queries, engine and reader take turns. A get that ends by
    the stall finds nothing exactly if no valid item came before the timeout of its query, and else
    returns a mutable item that did, with a sequence number that none of the others exceeds. A put
    that gets as far hands over a number that none exceeds. -/
theorem Client.nothing_lost_at_stall {c : Client σ Iterative.Lookup} {w : Iterative.Width}
    (hengine : c.engine = .iterative w) (lifetime : Lifetime) (target : NodeId) (seq : Option Seq)
    (salt : Option Bytes) (build : Seq → Item) (now : Instant) (network : σ) :
    (∀ kept d,
      (c.search lifetime target seq salt).discover best none now network = (.exhausted kept, d) →
      let s := c.search lifetime target seq salt
      let get := c.get lifetime target seq salt now network
      s.Complete best none kept now network d ∧ get.history = d.history ∧
        (get.returned = some (d.now, .error .notFound) ↔ s.offers network d.history = []) ∧
        (s.offers network d.history ≠ [] → ∃ found item,
          get.returned = some (d.now, .ok found) ∧ found.item = .mutable item ∧
            (∃ arrival node, (arrival, node, .mutable item) ∈ s.offers network d.history) ∧
            ∀ arrival node other, (arrival, node, .mutable other) ∈ s.offers network d.history →
              other.seq ≤ item.seq)) ∧
    (∀ seen d,
      (c.search lifetime target none salt).discover highestSeq 0 now network = (.exhausted seen, d) →
      let s := c.search lifetime target none salt
      s.Complete highestSeq 0 seen now network d ∧
        (∃ writes, (c.put lifetime target salt build now network).history =
          d.history ++ .built d.now seen (build seen) :: writes) ∧
        ∀ arrival node item, (arrival, node, .mutable item) ∈ s.offers network d.history →
          item.seq ≤ seen) := by
  constructor
  · intro kept d hdiscover s get
    have hcomplete := Search.complete_of_exhausted hengine hdiscover
    obtain ⟨hnone, hbest⟩ := Search.best_of_exhausted hdiscover
    have hreturned : get.returned = match (kept : Option MutableItem) with
        | some item => some (d.now, .ok ⟨.mutable item, c.engine.stats d.engine⟩)
        | none => some (d.now, .error .notFound) := by
      simp only [get, Client.get, hdiscover]
      cases kept <;> rfl
    refine ⟨hcomplete, history_get hdiscover, ?_, ?_⟩
    · rw [← hnone, hreturned]
      cases kept <;> simp
    · intro hoffers
      cases kept with
      | none => exact absurd (hnone.1 rfl) hoffers
      | some item =>
        obtain ⟨⟨arrival, node, -, hoffer⟩, hhighest⟩ := hbest item rfl
        exact ⟨_, item, hreturned, rfl, ⟨arrival, node, hoffer⟩, hhighest⟩
  · intro seen d hdiscover s
    have hcomplete := Search.complete_of_exhausted hengine hdiscover
    refine ⟨hcomplete, ?_, ?_⟩
    · simp only [Client.put, Client.putWith, hdiscover]
      exact ⟨_, rfl⟩
    · intro arrival node item hitem
      have hread := hcomplete.reads.mem_iff.2 hitem
      exact (le_highestSeq_of_reading hcomplete.reader).2 item (List.mem_map.2 ⟨_, hread, rfl⟩)

theorem Client.nothing_lost_at_stall_lone :
    let c := Client.ofLone (.after 3 (.ok (.ofMutable .sample)))
    let s := c.search {} MutableItem.sample.target none none
    (∃ d found item, s.Complete best none (some .sample) 0 () d ∧
      (c.get {} MutableItem.sample.target none none 0 ()).returned = some (d.now, .ok found) ∧
      found.item = .mutable item) ∧
      ∃ d, s.Complete highestSeq 0 7 0 () d := by
  intro c s
  have hspec := nothing_lost_at_stall (c := c) (w := {}) rfl {} MutableItem.sample.target none none
    (fun _ => .immutable []) 0 ()
  have hkept : (s.discover best none 0 ()).1 = .exhausted (some .sample) := by decide +kernel
  have hseen : (s.discover highestSeq 0 0 ()).1 = .exhausted 7 := by decide +kernel
  constructor
  · cases hdiscover : s.discover best none 0 () with
    | mk ending d =>
      rw [hdiscover] at hkept
      obtain rfl : ending = .exhausted (some .sample) := hkept
      obtain ⟨hcomplete, -, -, hfound⟩ := hspec.1 _ _ hdiscover
      have hoffers : s.offers () d.history ≠ [] := by
        intro hnone
        cases (Search.best_of_exhausted hdiscover).1.2 hnone
      obtain ⟨found, item, hreturned, hitem, -⟩ := hfound hoffers
      exact ⟨d, found, item, hcomplete, hreturned, hitem⟩
  · cases hdiscover : s.discover highestSeq 0 0 () with
    | mk ending d =>
      rw [hdiscover] at hseen
      obtain rfl : ending = .exhausted 7 := hseen
      exact ⟨d, (hspec.2 _ _ hdiscover).1⟩

end DhtStore
