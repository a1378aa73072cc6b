import DhtStore.Proofs.Discovery.Accounts
import DhtStore.Proofs.Discovery.Course
import DhtStore.Proofs.Engine.Bound
import Mathlib.Algebra.Order.BigOperators.Group.List
import Mathlib.Algebra.Order.Ring.Nat

namespace DhtStore

variable {σ S ρ : Type}

/-- The most steps that a query in flight still gives rise to: time passes until it is due, it ends, its
    report is taken in and its item is read. -/
def Flight.work (now : Instant) (flight : Flight) : Nat := if flight.due = now then 3 else 4

/-- The most steps that a discovery still takes at one instant after the other if get is called for at most `bound`
    nodes in all. -/
def Discovery.work (bound : Nat) (d : Discovery σ S ρ) : Nat :=
  4 * (bound - d.history.called.length) + (d.inFlight.map (Flight.work d.now)).sum + d.ended.length
    + d.offered.length + (!d.seeded).toNat + (!d.stopped).toNat

theorem Flight.work_le (now : Instant) (flight : Flight) : flight.work now ≤ 4 := by
  unfold work
  split <;> omega

theorem Flight.le_work (now : Instant) (flight : Flight) : 3 ≤ flight.work now := by
  unfold work
  split <;> omega

theorem Discovery.work_now_le (bound : Nat) {d : Discovery σ S ρ} (hnone : ∀ flight ∈ d.inFlight, flight.due ≠ d.now)
    (time : Instant) : ({ d with now := time } : Discovery σ S ρ).work bound ≤ d.work bound := by
  have hsum : (d.inFlight.map (Flight.work time)).sum ≤ (d.inFlight.map (Flight.work d.now)).sum := by
    refine List.sum_le_sum fun flight hflight => ?_
    have hlater : flight.work d.now = 4 := by simp [Flight.work, hnone flight hflight]
    rw [hlater]
    exact flight.work_le time
  unfold work
  dsimp only
  omega

namespace Search

variable {s : Search σ S} {read : Reader ρ} {bound : Nat} {d next : Discovery σ S ρ} {network : σ}

theorem work_ask_le (node : Node) (hroom : d.history.called.length < bound) :
    (s.ask d node).work bound ≤ d.work bound := by
  have hcalled : (s.ask d node).history.called.length = d.history.called.length + 1 := by simp
  obtain ⟨delivery, hflying⟩ := s.exists_inFlight_ask d node
  have hwork := (Flight.depart d.now s.timeout node delivery).work_le d.now
  have hnow : (s.ask d node).now = d.now := now_foldl_ask [node]
  have hended : (s.ask d node).ended = d.ended := ended_foldl_ask [node]
  have hoffered : (s.ask d node).offered = d.offered := offered_foldl_ask [node]
  have hseeded : (s.ask d node).seeded = d.seeded := seeded_foldl_ask [node]
  have hstopped : (s.ask d node).stopped = d.stopped := stopped_foldl_ask [node]
  unfold Discovery.work
  rw [hcalled, hflying, hnow, hended, hoffered, hseeded, hstopped]
  simp only [List.map_append, List.map_cons, List.map_nil, List.sum_append, List.sum_cons, List.sum_nil]
  omega

theorem work_foldl_ask_le (nodes : List Node) (hroom : d.history.called.length + nodes.length ≤ bound) :
    (nodes.foldl s.ask d).work bound ≤ d.work bound := by
  induction nodes generalizing d with
  | nil => exact Nat.le_refl _
  | cons node nodes ih =>
    rw [List.length_cons] at hroom
    have hcalled : (s.ask d node).history.called.length = d.history.called.length + 1 := by simp
    exact Nat.le_trans (ih (by omega)) (work_ask_le node (by omega))

/-- A query is paid for by the place that it takes up within the bound. -/
theorem work_advance_le (hcalled : (s.advance d).history.called.length ≤ bound) :
    (s.advance d).work bound ≤ d.work bound := by
  let wanted := s.engine.next (d.inFlight.length + d.ended.length) d.engine
  have hlength : (s.advance d).history.called = d.history.called ++ wanted.1 := by
    simp [advance, wanted]
  rw [hlength, List.length_append] at hcalled
  exact work_foldl_ask_le (d := { d with engine := wanted.2 }) wanted.1 hcalled

theorem work_resume_lt {flight : Flight} {rest : List Flight} (hended : d.ended.Perm (flight :: rest)) {moved : Nat}
    (hcalled : (s.resume flight { d with ended := rest, moved }).history.called.length ≤ bound) :
    (s.resume flight { d with ended := rest, moved }).work bound < d.work bound := by
  have hfewer : rest.length < d.ended.length := by
    rw [hended.length_eq]
    exact Nat.lt_succ_self _
  refine Nat.lt_of_le_of_lt (work_advance_le hcalled) ?_
  unfold Discovery.work
  dsimp only
  omega

theorem work_land_lt {flight : Flight} {rest : List Flight} (hflying : d.inFlight.Perm (flight :: rest))
    (hdue : flight.due = d.now) (moved : Nat) :
    (s.land flight { d with inFlight := rest, moved }).work bound < d.work bound := by
  have hsum := (hflying.map (Flight.work d.now)).sum_nat
  have hdone : flight.work d.now = 3 := by simp [Flight.work, hdue]
  have hcalled : (s.land flight { d with inFlight := rest, moved }).history.called = d.history.called := by
    simp [Search.land, Event.called?]
  have hoffer : ((flight.item? s.target s.salt).map (Offer.mk flight.node)).toList.length ≤ 1 := by
    cases flight.item? s.target s.salt <;> simp
  rw [List.map_cons, List.sum_cons, hdone] at hsum
  unfold Discovery.work
  rw [hcalled]
  simp only [Search.land, List.length_append, List.length_singleton]
  omega

/-- Time passes only to an instant at which a query is due that was not due before. -/
theorem work_pass_lt {due : Instant} (hnone : ∀ flight ∈ d.inFlight, flight.due ≠ d.now)
    (hsome : ∃ flight ∈ d.inFlight, flight.due = due) :
    ({ d with now := due } : Discovery σ S ρ).work bound < d.work bound := by
  have hsum : (d.inFlight.map (Flight.work due)).sum < (d.inFlight.map (Flight.work d.now)).sum := by
    refine List.sum_lt_sum _ _ ?_ ?_
    · intro flight hflight
      have hlater : flight.work d.now = 4 := by simp [Flight.work, hnone flight hflight]
      rw [hlater]
      exact flight.work_le due
    · obtain ⟨flight, hflight, hdue⟩ := hsome
      refine ⟨flight, hflight, ?_⟩
      simp [Flight.work, hdue, hdue ▸ hnone flight hflight]
  unfold Discovery.work
  dsimp only
  omega

theorem work_step_lt (hstep : s.Step read d (.going next)) (hcalled : next.history.called.length ≤ bound) :
    next.work bound < d.work bound := by
  cases hstep with
  | reading hoffered _ =>
    have hquiet (event : Event) (hevent : event.called? = none) :
        History.called (d.history ++ [event]) = d.history.called := by simp [hevent]
    unfold Discovery.work Search.take
    rw [hquiet _ rfl, hoffered]
    simp only [List.length_cons]
    omega
  | reported hended => exact work_resume_lt hended hcalled
  | landed hflying hdue => exact work_land_lt hflying hdue _
  | passed _ _ hnone hsome _ _ => exact work_pass_lt hnone hsome

theorem work_winds_lt (hwinds : s.Winds d next) (hcalled : next.history.called.length ≤ bound) :
    next.work bound < d.work bound := by
  cases hwinds with
  | seeded _ hfirst =>
    refine Nat.lt_of_le_of_lt (work_advance_le hcalled) ?_
    simp [Discovery.work, hfirst]
  | reported _ hended => exact work_resume_lt hended hcalled
  | @cut flight rest _ hflying =>
    have hsum := (hflying.map (Flight.work d.now)).sum_nat
    have hwork := flight.le_work d.now
    rw [List.map_cons, List.sum_cons] at hsum
    unfold Discovery.work
    simp only [List.length_append, List.length_singleton]
    omega
  | stopped hgoing => simp [Discovery.work, hgoing]

/-- A lawful engine does not call for more nodes than it says, be the call over or not. -/
theorem Trails.length_called_le (hlawful : s.engine.Lawful) {c : Course S}
    (hreach : s.engine.Reaches s.transport.accepts s.target c) (htrails : s.Trails network d c) :
    d.history.called.length ≤ s.engine.bound (s.transport.startingNodes network) := by
  cases hseeded : d.seeded with
  | true =>
    rw [← htrails.called, ← htrails.seeds hseeded]
    exact hlawful.length_asked_le hreach
  | false =>
    rw [← htrails.called, (htrails.unseeded hseeded).1]
    exact Nat.zero_le _

/-- With more fuel than work the reader gets to look. -/
theorem run_interrupted (hlawful : s.engine.Lawful) {c : Course S}
    (hreach : s.engine.Reaches s.transport.accepts s.target c) (htrails : s.Trails network d c)
    (hover : s.lifetime.isOver d.now = true) {fuel : Nat}
    (hfuel : d.work (s.engine.bound (s.transport.startingNodes network)) < fuel) {last : Discovery σ S ρ} :
    s.run read fuel d ≠ (.endless, last) := by
  induction fuel generalizing d c with
  | zero => exact absurd hfuel (Nat.not_lt_zero _)
  | succ fuel ih =>
    intro hrun
    obtain ⟨reason, -, hstep⟩ | ⟨next, hstep, hwinds⟩ := step_of_isOver read hover
    · simp only [run, hstep] at hrun
      cases hrun
    · simp only [run, hstep] at hrun
      obtain ⟨after, hafter, hnext⟩ := htrails.winds hreach hwinds
      have hless := work_winds_lt hwinds (hnext.length_called_le hlawful hafter)
      exact ih hafter hnext ((Kept.of_winds hover hwinds).now ▸ hover) (by omega) hrun

/-- A run with more fuel than work ends by a step, or with the end of the lifetime. -/
theorem run_ends {P : Discovery σ S ρ → Prop} (hlawful : s.engine.Lawful)
    (hcourse : ∀ {d}, s.Running d → P d → ∃ c, s.engine.Reaches s.transport.accepts s.target c ∧ s.Trails network d c)
    (hkeep : ∀ {d next}, s.lifetime.isOver d.now = false → P d → s.Step read d (.going next) → P next) {fuel : Nat}
    {last : Discovery σ S ρ} {ending : Ending ρ}
    (hfuel : d.work (s.engine.bound (s.transport.startingNodes network)) + 1 < fuel) (hrunning : s.Running d)
    (hd : P d) (hrun : s.run read fuel d = (ending, last)) :
    ∃ before, s.Running before ∧ P before ∧ s.Leaves read before ending last ∧
      (ending = .endless → s.Step read before (.ended ending last)) := by
  induction fuel generalizing d with
  | zero => exact absurd hfuel (Nat.not_lt_zero _)
  | succ fuel ih =>
    rw [run] at hrun
    obtain hstep | ⟨limit, hwaits, hstep⟩ := hrunning.step_spec read
    · split at hrun
      · next hended =>
        cases hrun
        rw [hended] at hstep
        exact ⟨d, hrunning, hd, .step hstep, fun _ => hstep⟩
      · next next hgoing =>
        rw [hgoing] at hstep
        have hnext := hkeep hrunning.lasting hd hstep
        obtain ⟨c, hreach, htrails⟩ := hcourse (hrunning.step hstep) hnext
        have hless := work_step_lt hstep (htrails.length_called_le hlawful hreach)
        exact ih (by omega) (hrunning.step hstep) hnext hrun
    · rw [hstep] at hrun
      obtain ⟨c, hreach, htrails⟩ := hcourse hrunning hd
      have hwork := Discovery.work_now_le (s.engine.bound (s.transport.startingNodes network)) hwaits.none limit
      have hfinal : s.run read fuel { d with now := limit } ≠ (.endless, last) :=
        run_interrupted hlawful hreach (htrails.pass limit) hwaits.isOver (by omega)
      refine ⟨d, hrunning, hd, .waited hwaits (run_of_isOver hwaits.isOver hrun), ?_⟩
      rintro rfl
      exact absurd hrun hfinal

/-- A discovery that is not over as it begins ends by a step or with the end of its lifetime, from a state with its
    accounts in order and all properties that its beginning has and its steps keep. -/
theorem discover_ends {P : Discovery σ S ρ → Prop} {init : ρ} {now : Instant}
    (hlawful : s.engine.Lawful) (hbegin : s.lifetime.isOver now = false → P (s.begin now network init))
    (hkeep : ∀ {d next}, s.lifetime.isOver d.now = false → P d → s.Step read d (.going next) → P next)
    {ending : Ending ρ} {last : Discovery σ S ρ}
    (hdiscover : s.discover read init now network = (ending, last)) :
    (∃ reason, ending = .interrupted reason ∧ s.Interrupts (s.initial now network init) ending last) ∨
    (s.lifetime.isOver now = false ∧ ∃ before, s.Running before ∧ P before ∧ s.Leaves read before ending last ∧
      (ending = .endless → s.Step read before (.ended ending last)) ∧
      s.Accounts read init now network before ∧
      ∃ c, s.engine.Reaches s.transport.accepts s.target c ∧ s.Follows network before c) := by
  let bound := s.engine.bound (s.transport.startingNodes network)
  unfold discover at hdiscover
  cases hover : s.lifetime.isOver now with
  | true =>
    -- The others may all wind down before the reader looks, so here too the fuel has to be enough.
    have hwork : (s.initial now network init).work bound < 4 * bound + 4 := by
      simp [Discovery.work, initial, History.called]
    have hfinal : s.run read (4 * bound + 4) (s.initial now network init) ≠ (.endless, last) :=
      run_interrupted hlawful .start (.initial now network init) hover hwork
    have hinterrupts := run_of_isOver hover hdiscover
    obtain rfl | ⟨reason, -, hending⟩ := hinterrupts.2.1
    · exact absurd hdiscover hfinal
    · exact .inl ⟨reason, hending, hinterrupts⟩
  | false =>
    rw [run, step_initial hover] at hdiscover
    let Q (d : Discovery σ S ρ) : Prop := P d ∧ s.Accounts read init now network d ∧
      ∃ c, s.engine.Reaches s.transport.accepts s.target c ∧ s.Follows network d c
    have hcourse {d : Discovery σ S ρ} (hrunning : s.Running d) (hd : Q d) :
        ∃ c, s.engine.Reaches s.transport.accepts s.target c ∧ s.Trails network d c := by
      obtain ⟨-, haccounts, c, hreach, hfollows⟩ := hd
      exact ⟨c, hreach, .of_follows hfollows hrunning.seeded haccounts.called⟩
    have hkeepAll {d next : Discovery σ S ρ} (hlasting : s.lifetime.isOver d.now = false) (hd : Q d)
        (hstep : s.Step read d (.going next)) : Q next := by
      obtain ⟨hP, haccounts, c, hreach, hfollows⟩ := hd
      exact ⟨hkeep hlasting hP hstep, haccounts.step hlasting hstep, hfollows.step hlasting hreach hstep⟩
    have hstart : Q (s.begin now network init) := ⟨hbegin hover, .begin hover, follows_begin hover network init⟩
    have hwork : (s.begin now network init).work bound + 1 < 4 * bound + 3 := by
      obtain ⟨c, hreach, htrails⟩ := hcourse (.begin hover) hstart
      have hless : (s.begin now network init).work bound ≤ _ :=
        work_advance_le (htrails.length_called_le hlawful hreach)
      refine Nat.lt_of_le_of_lt (Nat.add_le_add_right hless 1) ?_
      simp [Discovery.work, initial, History.called]
    obtain ⟨before, hrunning, ⟨hP, haccounts, hbefore⟩, hleaves, hendless⟩ :=
      run_ends hlawful hcourse hkeepAll hwork (.begin hover) hstart hdiscover
    exact .inr ⟨rfl, before, hrunning, hP, hleaves, hendless, haccounts, hbefore⟩

end Search

end DhtStore
