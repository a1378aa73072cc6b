import DhtStore.Proofs.Discovery.Endings
import Mathlib.Data.List.Perm.Basic

namespace DhtStore

variable {σ S ρ : Type}

/-- A rearrangement of images is the image of a rearrangement. -/
theorem exists_perm_of_perm_map {α β : Type} {f : α → β} {xs : List α} {ys : List β}
    (hperm : ys.Perm (xs.map f)) : ∃ zs : List α, zs.Perm xs ∧ zs.map f = ys := by
  have hsame : List.Forall₂ (fun y x => y = f x) (xs.map f) xs :=
    List.forall₂_map_left_iff.2 (List.forall₂_same.2 fun _ _ => rfl)
  obtain ⟨zs, hzs, hxs⟩ := List.perm_comp_forall₂ hperm hsame
  have hmap : List.Forall₂ Eq ys (zs.map f) := List.forall₂_map_right_iff.2 hzs
  exact ⟨zs, hxs, (List.forall₂_eq_eq_eq (α := β) ▸ hmap).symm⟩

namespace Search

/-- The reports that were taken in are those of queries that ended one after the other; those that ended at
    the present instant may still be to come. -/
structure Processes (d : Discovery σ S ρ) (c : Course S) (taken : List Flight) : Prop where
  reports : c.reports = taken.map Flight.entry
  landings : (taken ++ d.ended).Perm d.history.landings
  ordered : taken.Pairwise fun flight later => flight.due ≤ later.due
  past : ∀ flight ∈ taken, flight.due ≤ d.now
  present : ∀ flight ∈ d.ended, flight.due = d.now

/-- The courses that the engine of a search can take: it is given the starting nodes, once. -/
abbrev Pursues (s : Search σ S) (network : σ) (c : Course S) : Prop :=
  s.engine.Pursues s.transport.accepts s.target (s.transport.startingNodes network) c

variable {s : Search σ S} {read : Reader ρ} {init : ρ} {start : Instant} {network : σ}
  {d : Discovery σ S ρ} {c : Course S} {taken : List Flight}

namespace Processes

theorem advance (hprocesses : Processes d c taken) : Processes (s.advance d) (c.ask s.engine) taken where
  reports := hprocesses.reports
  landings := by simpa [Search.advance] using hprocesses.landings
  ordered := hprocesses.ordered
  past := by
    rw [now_advance]
    exact hprocesses.past
  present := by
    rw [now_advance]
    simpa [Search.advance] using hprocesses.present

/-- A query whose report is taken in ended no earlier than those before it. -/
theorem resume (hprocesses : Processes d c taken) {flight : Flight} {rest : List Flight}
    (hended : d.ended.Perm (flight :: rest)) (moved : Nat) (others : List Node) :
    Processes (s.resume flight { d with ended := rest, moved })
      ((c.settle s.engine s.transport.accepts flight.node flight.report others).ask s.engine)
      (taken ++ [flight]) := by
  have hpresent : ∀ other ∈ flight :: rest, other.due = d.now :=
    fun other hother => hprocesses.present other (hended.mem_iff.2 hother)
  obtain ⟨hnow, hrest⟩ := List.forall_mem_cons.1 hpresent
  refine advance ⟨?_, ?_, ?_, ?_, hrest⟩
  · change c.reports ++ [flight.entry] = _
    rw [hprocesses.reports, List.map_append]
    rfl
  · rw [List.append_assoc]
    exact (hended.symm.append_left taken).trans hprocesses.landings
  · refine List.pairwise_append.2 ⟨hprocesses.ordered, List.pairwise_singleton .., ?_⟩
    intro earlier hearlier later hlater
    obtain rfl := List.mem_singleton.1 hlater
    rw [hnow]
    exact hprocesses.past earlier hearlier
  · exact List.forall_mem_append.2 ⟨hprocesses.past, by simp [hnow]⟩

theorem land (hprocesses : Processes d c taken) {flight : Flight} (hdue : flight.due = d.now)
    (rest : List Flight) (moved : Nat) :
    Processes (s.land flight { d with inFlight := rest, moved }) c taken where
  reports := hprocesses.reports
  landings := by
    have hlanded : Event.flight? (.settled d.now flight.node flight.result) = some flight := by
      rw [← hdue]
      rfl
    simp only [Search.land, History.landings_concat, hlanded, ← List.append_assoc]
    exact hprocesses.landings.append_right _
  ordered := hprocesses.ordered
  past := hprocesses.past
  present := by
    refine List.forall_mem_append.2 ⟨hprocesses.present, fun other hother => ?_⟩
    obtain rfl := List.mem_singleton.1 hother
    exact hdue

theorem step (hlasting : s.lifetime.isOver d.now = false) (haccounts : s.Accounts read init start network d)
    {next : Discovery σ S ρ} (hpursues : s.Pursues network c) (hfollows : s.Follows network d c)
    (hprocesses : Processes d c taken) (hstep : s.Step read d (.going next)) :
    ∃ c taken, s.Pursues network c ∧ s.Follows network next c ∧ Processes next c taken := by
  cases hstep with
  | @reading offer rest reader _ _ =>
    refine ⟨c, taken, hpursues, hfollows.take offer rest _ reader, ?_⟩
    refine ⟨hprocesses.reports, ?_, hprocesses.ordered, hprocesses.past, hprocesses.present⟩
    simpa [Search.take, Event.flight?] using hprocesses.landings
  | @reported flight rest hended =>
    obtain ⟨hflying, hresumed⟩ := hfollows.resume hlasting hended (d.moved + 1)
    exact ⟨_, _, hpursues.settle flight.report hflying, hresumed, hprocesses.resume hended _ _⟩
  | @landed flight rest hflying hdue =>
    exact ⟨c, taken, hpursues, hfollows.land hflying hdue _, hprocesses.land hdue rest _⟩
  | @passed due _ hended _ hsome _ _ =>
    obtain ⟨first, hfirst, rfl⟩ := hsome
    refine ⟨c, taken, hpursues, hfollows.pass _, hprocesses.reports, hprocesses.landings,
      hprocesses.ordered, ?_, ?_⟩
    · intro flight hflight
      exact Nat.le_trans (hprocesses.past flight hflight) (haccounts.due first hfirst)
    · simp [hended]

end Processes

theorem processes_begin (hlasting : s.lifetime.isOver start = false) : ∃ c taken, s.Pursues network c ∧
    s.Follows network (s.begin start network init) c ∧ Processes (s.begin start network init) c taken := by
  refine ⟨_, [], .begin, follows_begin_ask hlasting network init, Processes.advance ?_⟩
  have hnone (flight : Flight) : flight ∉ [] := List.not_mem_nil
  exact ⟨rfl, .nil, .nil, fun flight hmem => absurd hmem (hnone flight),
    fun flight hmem => absurd hmem (hnone flight)⟩

/-- How a discovery stands whose engine is at its end. The engine asked all that was queried and waits for
    nothing. It has taken in the report of each query, in the order in which they ended. -/
structure Stalled (s : Search σ S) (network : σ) (d : Discovery σ S ρ) (c : Course S)
    (processed : List Query) : Prop where
  pursues : s.Pursues network c
  state : c.state = d.engine
  quiet : c.inFlight = []
  asked : c.asked = (s.transport.queries network d.history).map Query.node
  perm : processed.Perm (s.transport.queries network d.history)
  ordered : processed.Pairwise fun q later => q.due s.timeout ≤ later.due s.timeout
  reports : c.reports = processed.map fun q => (q.node, q.report s.timeout)

theorem Processes.stalled (haccounts : s.Accounts read init start network d) (hpursues : s.Pursues network c)
    (hfollows : s.Follows network d c) (hprocesses : Processes d c taken) (hatEnd : d.atEnd = true) :
    ∃ processed, s.Stalled network d c processed := by
  obtain ⟨hflying, hended⟩ := hfollows.atEnd hatEnd
  have htaken : taken.Perm ((s.transport.queries network d.history).map (Query.flight s.timeout)) := by
    have hlandings := hprocesses.landings
    have hflights := haccounts.flights
    rw [hended, List.append_nil] at hlandings
    rw [hflying, List.append_nil] at hflights
    exact hlandings.trans hflights
  have hquiet : c.inFlight = [] := by
    have hperm := hfollows.inFlight
    rw [hflying, hended] at hperm
    exact hperm.eq_nil
  obtain ⟨processed, hperm, hprocessed⟩ := exists_perm_of_perm_map htaken
  refine ⟨processed, hpursues, hfollows.state, hquiet, ?_, hperm, ?_, ?_⟩
  · exact hfollows.asked.trans (History.map_node_queries s.transport network d.history).symm
  · have hordered := hprocesses.ordered
    rw [← hprocessed, List.pairwise_map] at hordered
    simpa only [Query.due_flight] using hordered
  · rw [hprocesses.reports, ← hprocessed, List.map_map]
    refine List.map_congr_left fun q _ => ?_
    simp [Flight.entry, Query.report_flight]

/-- Once its engine is at its end a discovery asks no more, however it ends. -/
theorem stalled_of_discover {ending : Ending ρ} {last : Discovery σ S ρ}
    (hdiscover : s.discover read init start network = (ending, last)) (hatEnd : last.atEnd = true) :
    last.inFlight = [] ∧ last.ended = [] ∧ ∃ c processed, s.Stalled network last c processed := by
  let P (d : Discovery σ S ρ) : Prop := s.Accounts read init start network d ∧ ∃ c taken,
    s.Pursues network c ∧ s.Follows network d c ∧ Processes d c taken
  have hkeep {d next : Discovery σ S ρ} (hlasting : s.lifetime.isOver d.now = false) (hd : P d)
      (hstep : s.Step read d (.going next)) : P next := by
    obtain ⟨haccounts, c, taken, hpursues, hfollows, hprocesses⟩ := hd
    exact ⟨haccounts.step hlasting hstep, hprocesses.step hlasting haccounts hpursues hfollows hstep⟩
  have hstalled {d : Discovery σ S ρ} (hd : P d) (hatEnd : d.atEnd = true) :
      d.inFlight = [] ∧ d.ended = [] ∧ ∃ c processed, s.Stalled network d c processed := by
    obtain ⟨haccounts, c, taken, hpursues, hfollows, hprocesses⟩ := hd
    obtain ⟨hflying, hended⟩ := hfollows.atEnd hatEnd
    exact ⟨hflying, hended, c, hprocesses.stalled haccounts hpursues hfollows hatEnd⟩
  obtain hinterrupts | ⟨_, -, hlast⟩ | ⟨before, -, hbefore, hleaves⟩ :=
    discover_spec (P := P) (fun hlasting => ⟨.begin hlasting, processes_begin hlasting⟩) hkeep hdiscover
  · cases hinterrupts.kept.atEnd hatEnd
  · exact hstalled hlast hatEnd
  · have hqueries : s.transport.queries network last.history = s.transport.queries network before.history :=
      queries_of_leaves hleaves
    cases hleaves with
    | waited hwaits hinterrupts => cases hwaits.atEnd.symm.trans (hinterrupts.kept.atEnd hatEnd)
    | step hstep =>
      have hrest : last.inFlight = before.inFlight ∧ last.ended = before.ended ∧
          last.atEnd = before.atEnd := by
        cases hstep <;> exact ⟨rfl, rfl, rfl⟩
      obtain ⟨hflying, hended, hsame⟩ := hrest
      rw [hsame] at hatEnd
      rw [hflying, hended]
      obtain ⟨hquiet, hsettled, c, processed, hbefore⟩ := hstalled hbefore hatEnd
      refine ⟨hquiet, hsettled, c, processed, hbefore.pursues, ?_, hbefore.quiet, ?_, ?_, hbefore.ordered,
        hbefore.reports⟩
      · rw [engine_of_ended hstep]
        exact hbefore.state
      · rw [hqueries]
        exact hbefore.asked
      · rw [hqueries]
        exact hbefore.perm

theorem atEnd_of_exhausted {state : ρ} {last : Discovery σ S ρ}
    (hdiscover : s.discover read init start network = (.exhausted state, last)) : last.atEnd = true := by
  obtain hinterrupts | ⟨hending, -⟩ | ⟨before, -, -, hleaves⟩ :=
    discover_spec (P := fun _ => True) (fun _ => trivial) (fun _ _ _ => trivial) hdiscover
  · cases hinterrupts.not_natural
  · cases hending
  · cases hleaves with
    | step hstep =>
      cases hstep with
      | exhausted _ hatEnd => exact hatEnd
    | waited _ hinterrupts => cases hinterrupts.not_natural

theorem stalled_of_exhausted {state : ρ} {last : Discovery σ S ρ}
    (hdiscover : s.discover read init start network = (.exhausted state, last)) :
    ∃ c processed, s.Stalled network last c processed :=
  (stalled_of_discover hdiscover (atEnd_of_exhausted hdiscover)).2.2

end Search

end DhtStore
