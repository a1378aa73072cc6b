import DhtStore.Proofs.Discovery.Closing
import DhtStore.Proofs.Engine.Course

namespace DhtStore

variable {σ S ρ : Type}

/-- What the engine learns when a query is over: the node that was asked, and the report on it. -/
def Flight.entry (f : Flight) : Node × QueryReport := (f.node, f.report)

namespace Search

/-- The engine of a discovery is where a course is. For the engine a query is in flight until its
    report is taken in. -/
structure Follows (s : Search σ S) (network : σ) (d : Discovery σ S ρ) (c : Course S) : Prop where
  state : c.state = d.engine
  seeds : c.seeds = s.transport.startingNodes network
  inFlight : c.inFlight.Perm ((d.inFlight ++ d.ended).map Flight.node)
  asked : c.asked = d.history.asked
  reports : (c.reports ++ d.ended.map Flight.entry).Perm (d.history.landings.map Flight.entry)
  atEnd : d.atEnd = true → d.inFlight = [] ∧ d.ended = []

/-- The engine of a discovery is where a course is, as far as it goes what the engine wants to be asked and waits for.
    A query that was cut short is over for the engine, whatever would have become of it. -/
structure Trails (s : Search σ S) (network : σ) (d : Discovery σ S ρ) (c : Course S) : Prop where
  state : c.state = d.engine
  inFlight : c.inFlight.Perm ((d.inFlight ++ d.ended).map Flight.node)
  called : c.asked = d.history.called
  seeds : d.seeded = true → c.seeds = s.transport.startingNodes network
  unseeded : d.seeded = false → c = { state := s.engine.start s.target } ∧ d.network = network

variable {s : Search σ S} {read : Reader ρ} {network : σ} {d : Discovery σ S ρ} {c : Course S}

@[simp] theorem map_node_inFlight_ask (node : Node) :
    (s.ask d node).inFlight.map Flight.node = d.inFlight.map Flight.node ++ [node] := by
  cases hover : s.lifetime.isOver d.now with
  | true => simp [ask_of_isOver hover]
  | false => simp [ask_of_lasting hover]

@[simp] theorem called_ask (node : Node) : (s.ask d node).history.called = d.history.called ++ [node] := by
  cases hover : s.lifetime.isOver d.now with
  | true => simp [ask_of_isOver hover, Event.called?]
  | false => simp [ask_of_lasting hover, Event.called?]

@[simp] theorem landings_ask (node : Node) : (s.ask d node).history.landings = d.history.landings := by
  cases hover : s.lifetime.isOver d.now with
  | true => simp [ask_of_isOver hover, Event.flight?]
  | false => simp [ask_of_lasting hover, Event.flight?]

@[simp] theorem map_node_inFlight_foldl_ask (nodes : List Node) :
    (nodes.foldl s.ask d).inFlight.map Flight.node = d.inFlight.map Flight.node ++ nodes := by
  induction nodes generalizing d with
  | nil => simp
  | cons node nodes ih => rw [List.foldl_cons, ih, map_node_inFlight_ask, List.append_assoc, List.singleton_append]

@[simp] theorem called_foldl_ask (nodes : List Node) :
    (nodes.foldl s.ask d).history.called = d.history.called ++ nodes := by
  induction nodes generalizing d with
  | nil => simp
  | cons node nodes ih => rw [List.foldl_cons, ih, called_ask, List.append_assoc, List.singleton_append]

@[simp] theorem landings_foldl_ask (nodes : List Node) :
    (nodes.foldl s.ask d).history.landings = d.history.landings := by
  induction nodes generalizing d with
  | nil => rfl
  | cons node nodes ih => rw [List.foldl_cons, ih, landings_ask]

/-- While the call lasts, the nodes that get is called for are asked. -/
theorem asked_foldl_ask (hlasting : s.lifetime.isOver d.now = false) (nodes : List Node) :
    (nodes.foldl s.ask d).history.asked = d.history.asked ++ nodes := by
  induction nodes generalizing d with
  | nil => simp
  | cons node nodes ih =>
    have hstill : s.lifetime.isOver (s.ask d node).now = false := (now_foldl_ask [node]).symm ▸ hlasting
    rw [List.foldl_cons, ih hstill, ask_of_lasting hlasting]
    simp [Event.asked?]

/-- An engine that begins queries asks as its course does. -/
theorem ask_advance (hstate : c.state = d.engine)
    (hflying : c.inFlight.Perm ((d.inFlight ++ d.ended).map Flight.node)) :
    let after := s.advance d
    (c.ask s.engine).state = after.engine ∧
      (c.ask s.engine).inFlight.Perm ((after.inFlight ++ after.ended).map Flight.node) ∧
      ∃ wanted, (c.ask s.engine).asked = c.asked ++ wanted ∧ after.history.called = d.history.called ++ wanted ∧
        (s.lifetime.isOver d.now = false → after.history.asked = d.history.asked ++ wanted) := by
  have hlength : c.inFlight.length = d.inFlight.length + d.ended.length := by
    rw [hflying.length_eq, List.length_map, List.length_append]
  have hwanted : s.engine.next c.inFlight.length c.state =
      s.engine.next (d.inFlight.length + d.ended.length) d.engine := by
    rw [hlength, hstate]
  refine ⟨?_, ?_, (s.engine.next c.inFlight.length c.state).1, Course.asked_ask .., ?_, fun hlasting => ?_⟩
  · simp [Course.ask, advance, hwanted]
  · simp only [Course.ask, advance, hwanted, List.map_append, map_node_inFlight_foldl_ask, ended_foldl_ask]
    refine (hflying.append_right _).trans ?_
    rw [List.map_append, List.append_assoc, List.append_assoc]
    exact List.perm_append_comm.append_left _
  · simp [advance, hwanted]
  · let wanted := s.engine.next (d.inFlight.length + d.ended.length) d.engine
    rw [hwanted]
    exact asked_foldl_ask (d := { d with engine := wanted.2 }) hlasting wanted.1

namespace Follows

theorem advance (hfollows : s.Follows network d c) (hlasting : s.lifetime.isOver d.now = false) :
    s.Follows network (s.advance d) (c.ask s.engine) := by
  obtain ⟨hstate, hflying, wanted, hasked, -, hsent⟩ := ask_advance (s := s) hfollows.state hfollows.inFlight
  refine ⟨hstate, hfollows.seeds, hflying, ?_, ?_, ?_⟩
  · rw [hasked, hsent hlasting, hfollows.asked]
  · simpa [Course.ask, Search.advance] using hfollows.reports
  · intro hatEnd
    simp only [Search.advance, Bool.and_eq_true, List.isEmpty_iff] at hatEnd
    exact ⟨hatEnd.1.1.2, hatEnd.1.2⟩

theorem take (hfollows : s.Follows network d c) (offer : Offer) (rest : List Offer) (moved : Nat)
    (reader : ρ) :
    s.Follows network { Search.take offer { d with offered := rest, moved } with reader } c := by
  refine ⟨hfollows.state, hfollows.seeds, hfollows.inFlight, ?_, ?_, hfollows.atEnd⟩
  · simpa [Search.take, Event.asked?] using hfollows.asked
  · simpa [Search.take, Event.flight?] using hfollows.reports

/-- The course goes on with the report that the engine takes in, and with what it asks then. -/
theorem resume (hfollows : s.Follows network d c) (hlasting : s.lifetime.isOver d.now = false) {flight : Flight}
    {rest : List Flight} (hended : d.ended.Perm (flight :: rest)) (moved : Nat) :
    let others := (d.inFlight ++ rest).map Flight.node
    c.inFlight.Perm (flight.node :: others) ∧
      s.Follows network (s.resume flight { d with ended := rest, moved })
        ((c.settle s.engine s.transport.accepts flight.node flight.report others).ask s.engine) := by
  intro others
  have hmiddle : (d.inFlight ++ d.ended).Perm (flight :: (d.inFlight ++ rest)) :=
    (hended.append_left _).trans List.perm_middle
  refine ⟨hfollows.inFlight.trans (hmiddle.map Flight.node), advance ?_ hlasting⟩
  refine ⟨?_, hfollows.seeds, .refl _, hfollows.asked, ?_, ?_⟩
  · simp [Course.settle, hfollows.state]
  · refine List.Perm.trans ?_ hfollows.reports
    change (c.reports ++ [flight.entry] ++ rest.map Flight.entry).Perm _
    rw [List.append_assoc]
    exact ((hended.map Flight.entry).symm).append_left _
  · intro hatEnd
    rw [(hfollows.atEnd hatEnd).2] at hended
    exact absurd hended.nil_eq.symm (List.cons_ne_nil _ _)

theorem land (hfollows : s.Follows network d c) {flight : Flight} {rest : List Flight}
    (hflying : d.inFlight.Perm (flight :: rest)) (hdue : flight.due = d.now) (moved : Nat) :
    s.Follows network (s.land flight { d with inFlight := rest, moved }) c := by
  refine ⟨hfollows.state, hfollows.seeds, ?_, ?_, ?_, ?_⟩
  · refine hfollows.inFlight.trans (List.Perm.map _ ?_)
    change (d.inFlight ++ d.ended).Perm (rest ++ (d.ended ++ [flight]))
    refine (hflying.append_right _).trans ?_
    rw [← List.append_assoc]
    exact (List.perm_append_singleton flight (rest ++ d.ended)).symm
  · simpa [Search.land, Event.asked?] using hfollows.asked
  · have hlanded : Event.flight? (.settled d.now flight.node flight.result) = some flight := by
      rw [← hdue]
      rfl
    simp only [Search.land, History.landings_concat, hlanded, List.map_append, ← List.append_assoc]
    exact hfollows.reports.append_right _
  · intro hatEnd
    rw [(hfollows.atEnd hatEnd).1] at hflying
    exact absurd hflying.nil_eq.symm (List.cons_ne_nil _ _)

theorem pass (hfollows : s.Follows network d c) (now : Instant) : s.Follows network { d with now } c :=
  ⟨hfollows.state, hfollows.seeds, hfollows.inFlight, hfollows.asked, hfollows.reports, hfollows.atEnd⟩

theorem step {next : Discovery σ S ρ} (hlasting : s.lifetime.isOver d.now = false)
    (hreach : s.engine.Reaches s.transport.accepts s.target c) (hfollows : s.Follows network d c)
    (hstep : s.Step read d (.going next)) :
    ∃ c, s.engine.Reaches s.transport.accepts s.target c ∧ s.Follows network next c := by
  cases hstep with
  | reading _ _ => exact ⟨c, hreach, hfollows.take _ _ _ _⟩
  | @reported flight rest hended =>
    obtain ⟨hflying, hresumed⟩ := hfollows.resume hlasting hended (d.moved + 1)
    exact ⟨_, hreach.settle flight.report hflying, hresumed⟩
  | landed hflying hdue => exact ⟨c, hreach, hfollows.land hflying hdue _⟩
  | passed _ _ _ _ _ _ => exact ⟨c, hreach, hfollows.pass _⟩

end Follows

/-- The course of a discovery that has begun its first queries. -/
theorem follows_begin_ask {now : Instant} (hlasting : s.lifetime.isOver now = false) (network : σ) (init : ρ) :
    s.Follows network (s.begin now network init)
      ((Course.seed s.engine s.transport.accepts (s.transport.startingNodes network)
        { state := s.engine.start s.target }).ask s.engine) :=
  Follows.advance ⟨rfl, rfl, .nil, rfl, .nil, fun _ => ⟨rfl, rfl⟩⟩ hlasting

theorem follows_begin {now : Instant} (hlasting : s.lifetime.isOver now = false) (network : σ) (init : ρ) :
    ∃ c, s.engine.Reaches s.transport.accepts s.target c ∧
      s.Follows network (s.begin now network init) c :=
  ⟨_, .seed _ .start, follows_begin_ask hlasting network init⟩

namespace Trails

theorem initial (now : Instant) (network : σ) (init : ρ) :
    s.Trails network (s.initial now network init) { state := s.engine.start s.target } :=
  ⟨rfl, .nil, rfl, nofun, fun _ => ⟨rfl, rfl⟩⟩

theorem of_follows (hfollows : s.Follows network d c) (hseeded : d.seeded = true)
    (hcalled : d.history.called = d.history.asked) : s.Trails network d c where
  state := hfollows.state
  inFlight := hfollows.inFlight
  called := hfollows.asked.trans hcalled.symm
  seeds _ := hfollows.seeds
  unseeded hnot := nomatch hseeded.symm.trans hnot

theorem advance (htrails : s.Trails network d c) (hseeded : d.seeded = true) :
    s.Trails network (s.advance d) (c.ask s.engine) := by
  obtain ⟨hstate, hflying, wanted, hasked, hcalled, -⟩ := ask_advance (s := s) htrails.state htrails.inFlight
  refine ⟨hstate, hflying, ?_, fun _ => htrails.seeds hseeded, fun hnot => ?_⟩
  · rw [hasked, hcalled, htrails.called]
  · simp [Search.advance, hseeded] at hnot

theorem pass (htrails : s.Trails network d c) (now : Instant) : s.Trails network { d with now } c :=
  ⟨htrails.state, htrails.inFlight, htrails.called, htrails.seeds, htrails.unseeded⟩

/-- Whatever the tasks do once the call is over, the engine goes on with its course. -/
theorem winds {next : Discovery σ S ρ} (hreach : s.engine.Reaches s.transport.accepts s.target c)
    (htrails : s.Trails network d c) (hwinds : s.Winds d next) :
    ∃ c, s.engine.Reaches s.transport.accepts s.target c ∧ s.Trails network next c := by
  cases hwinds with
  | seeded _ hfirst =>
    obtain ⟨rfl, hnetwork⟩ := htrails.unseeded hfirst
    refine ⟨_, hreach.seed (s.transport.startingNodes network),
      advance ⟨?_, htrails.inFlight, htrails.called, fun _ => rfl, nofun⟩ rfl⟩
    simp [Course.seed, ← htrails.state, hnetwork]
  | @reported flight rest _ hended =>
    have hmiddle : (d.inFlight ++ d.ended).Perm (flight :: (d.inFlight ++ rest)) :=
      (hended.append_left _).trans List.perm_middle
    have hflying := htrails.inFlight.trans (hmiddle.map Flight.node)
    have hseeded : d.seeded = true := by
      by_contra hnot
      rw [(htrails.unseeded (Bool.of_not_eq_true hnot)).1] at hflying
      cases hflying.nil_eq
    refine ⟨_, hreach.settle flight.report hflying, advance ⟨?_, .refl _, htrails.called, htrails.seeds, ?_⟩ hseeded⟩
    · simp [Course.settle, htrails.state]
    · intro hnot
      cases hseeded.symm.trans hnot
  | @cut flight rest _ hflying =>
    refine ⟨c, hreach, htrails.state, htrails.inFlight.trans ?_, htrails.called, htrails.seeds, htrails.unseeded⟩
    have hmoved : (d.inFlight ++ d.ended).Perm (rest ++ (d.ended ++ [flight])) := by
      refine (hflying.append_right _).trans ?_
      rw [← List.append_assoc]
      exact (List.perm_append_singleton flight (rest ++ d.ended)).symm
    simpa using hmoved.map Flight.node
  | stopped _ =>
    exact ⟨c, hreach, htrails.state, htrails.inFlight, htrails.called, htrails.seeds, htrails.unseeded⟩

end Trails

end Search

end DhtStore
