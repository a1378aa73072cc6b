import DhtStore.Proofs.Discovery.Queries
import DhtStore.Proofs.Discovery.Steps
import Mathlib.Logic.Relation

namespace DhtStore

variable {σ S ρ : Type}

/-- Whether a discovery came to an end of its own, neither cut short nor waiting for ever. -/
def Ending.isNatural : Ending ρ → Bool
  | .resolved _ => true
  | .exhausted _ => true
  | _ => false

namespace Search

variable {s : Search σ S} {read : Reader ρ} {d next last : Discovery σ S ρ} {ending : Ending ρ} {init : ρ}
  {now : Instant} {network : σ}

/-- What the tasks can do once the call is over, apart from the reader, whose look ends the discovery. -/
inductive Winds (s : Search σ S) (d : Discovery σ S ρ) : Discovery σ S ρ → Prop
  | seeded (hgoing : d.stopped = false) (hfirst : d.seeded = false) :
    Winds s d (s.seed { d with moved := d.moved + 1 })
  | reported {flight : Flight} {rest : List Flight} (hgoing : d.stopped = false)
    (hended : d.ended.Perm (flight :: rest)) :
    Winds s d (s.resume flight { d with ended := rest, moved := d.moved + 1 })
  | cut {flight : Flight} {rest : List Flight} (hgoing : d.stopped = false)
    (hflying : d.inFlight.Perm (flight :: rest)) :
    Winds s d { d with
      inFlight := rest
      ended := d.ended ++ [{ flight with result := .interrupted }]
      moved := d.moved + 1 }
  | stopped (hgoing : d.stopped = false) : Winds s d { d with stopped := true, moved := d.moved + 1 }

/-- What the tasks do from an instant on at which the call is over. -/
abbrev Closes (s : Search σ S) (d last : Discovery σ S ρ) : Prop := Relation.ReflTransGen s.Winds d last

section

variable {move : Move}

theorem winds_of_mem_engineMoves (hmove : move ∈ engineMoves d) :
    ∃ next, s.perform read { d with moved := d.moved + 1 } move = .going next ∧ s.Winds d next := by
  unfold engineMoves at hmove
  split at hmove
  · cases hmove
  · next hgoing =>
    have hgoing := Bool.of_not_eq_true hgoing
    obtain hmove | hmove := List.mem_append.1 hmove
    · split at hmove
      · cases hmove
      · next hfirst =>
        obtain rfl := List.mem_singleton.1 hmove
        exact ⟨_, rfl, .seeded hgoing (Bool.of_not_eq_true hfirst)⟩
    · obtain ⟨⟨flight, rest⟩, hpick, rfl⟩ := List.mem_map.1 hmove
      exact ⟨_, rfl, .reported hgoing (perm_of_mem_picks hpick)⟩

theorem winds_of_mem_queryMoves (hover : s.lifetime.isOver d.now = true) (hmove : move ∈ s.queryMoves d) :
    ∃ next, s.perform read { d with moved := d.moved + 1 } move = .going next ∧ s.Winds d next := by
  obtain ⟨reason, hpoll⟩ := Lifetime.exists_poll?_of_isOver hover
  unfold queryMoves at hmove
  split at hmove
  · cases hmove
  · next hgoing =>
    rw [hpoll] at hmove
    obtain ⟨⟨flight, rest⟩, hpick, rfl⟩ := List.mem_map.1 hmove
    exact ⟨_, rfl, .cut (Bool.of_not_eq_true hgoing) (perm_of_mem_picks hpick)⟩

theorem winds_of_mem_supervisorMoves (hmove : move ∈ s.supervisorMoves d) :
    ∃ next, s.perform read { d with moved := d.moved + 1 } move = .going next ∧ s.Winds d next := by
  unfold supervisorMoves at hmove
  split at hmove
  · split at hmove
    · cases hmove
    · next hgoing =>
      obtain rfl := List.mem_singleton.1 hmove
      exact ⟨_, rfl, .stopped (Bool.of_not_eq_true hgoing)⟩
  · cases hmove

end

/-- Whatever comes up once the call is over, an item, a reply, a timeout or the end of the engine, the reader finds the
    call over and nothing else. -/
theorem step_of_isOver (read : Reader ρ) (hover : s.lifetime.isOver d.now = true) :
    (∃ reason, s.lifetime.interruption? d.now = some reason ∧
      s.step read d = .ended (.interrupted reason) { d with moved := d.moved + 1 }) ∨
    ∃ next, s.step read d = .going next ∧ s.Winds d next := by
  obtain ⟨reason, hpoll⟩ := Lifetime.exists_poll?_of_isOver hover
  have hreader : s.readerMoves d = [.interrupt reason] := by simp only [readerMoves, hpoll]
  obtain ⟨move, hmove, hstep⟩ | ⟨hmoves, -⟩ := s.step_cases read d
  · rw [hstep]
    unfold moves at hmove
    obtain hmove | hsupervisor := List.mem_append.1 hmove
    · obtain hmove | hquery := List.mem_append.1 hmove
      · obtain hmove | hengine := List.mem_append.1 hmove
        · rw [hreader] at hmove
          obtain rfl := List.mem_singleton.1 hmove
          rw [Lifetime.poll?_eq_interruption?] at hpoll
          exact .inl ⟨reason, hpoll, rfl⟩
        · exact .inr (winds_of_mem_engineMoves hengine)
      · exact .inr (winds_of_mem_queryMoves hover hquery)
    · exact .inr (winds_of_mem_supervisorMoves hsupervisor)
  · simp [moves, hreader] at hmoves

/-- What stays as it is once the call is over: nothing is sent, nothing is read, and no end of the engine counts. Get
    may still be called, but only for requests that are dropped. -/
structure Kept (s : Search σ S) (d last : Discovery σ S ρ) : Prop where
  now : last.now = d.now
  network : last.network = d.network
  atEnd : last.atEnd = true → d.atEnd = true
  history : ∃ nodes, last.history = d.history ++ History.dropped d.now s.request nodes

namespace Kept

theorem refl (d : Discovery σ S ρ) : s.Kept d d := ⟨rfl, rfl, id, [], (List.append_nil _).symm⟩

theorem trans (hkept : s.Kept d next) (hlater : s.Kept next last) : s.Kept d last where
  now := hlater.now.trans hkept.now
  network := hlater.network.trans hkept.network
  atEnd hatEnd := hkept.atEnd (hlater.atEnd hatEnd)
  history := by
    obtain ⟨nodes, hhistory⟩ := hkept.history
    obtain ⟨others, hrest⟩ := hlater.history
    refine ⟨nodes ++ others, ?_⟩
    rw [hrest, hhistory, hkept.now, List.append_assoc]
    exact congrArg (d.history ++ ·) List.map_append.symm

theorem foldl_ask (hover : s.lifetime.isOver d.now = true) (nodes : List Node) :
    s.Kept d (nodes.foldl s.ask d) := by
  induction nodes generalizing d with
  | nil => exact .refl d
  | cons node nodes ih =>
    have hasked : s.Kept d (s.ask d node) := by
      rw [ask_of_isOver hover]
      exact ⟨rfl, rfl, id, [node], rfl⟩
    exact hasked.trans (ih (hasked.now ▸ hover))

theorem advance (hover : s.lifetime.isOver d.now = true) : s.Kept d (s.advance d) := by
  let wanted := s.engine.next (d.inFlight.length + d.ended.length) d.engine
  obtain ⟨hnow, hnetwork, -, hhistory⟩ := foldl_ask (s := s) (d := { d with engine := wanted.2 }) hover wanted.1
  exact ⟨hnow, hnetwork, by simp [Search.advance, hover], hhistory⟩

theorem of_winds (hover : s.lifetime.isOver d.now = true) (hwinds : s.Winds d next) : s.Kept d next := by
  have hsame (engine : S) (inFlight ended : List Flight) (seeded stopped : Bool) (moved : Nat) :
      s.Kept d { d with engine, inFlight, ended, seeded, stopped, moved } :=
    ⟨rfl, rfl, id, [], (List.append_nil _).symm⟩
  cases hwinds with
  | seeded _ _ | reported _ _ => exact (hsame _ _ _ _ _ _).trans (advance hover)
  | cut _ _ | stopped _ => exact hsame _ _ _ _ _ _

theorem of_closes (hover : s.lifetime.isOver d.now = true) (hcloses : s.Closes d last) : s.Kept d last := by
  induction hcloses with
  | refl => exact .refl d
  | tail _ hwinds ih => exact ih.trans (of_winds (ih.now ▸ hover) hwinds)

end Kept

/-- A discovery ends that has come to an instant at which the call is over: the reader finds it so, after whatever the
    others did before it looked. It does not get to look only if the fuel is spent. -/
def Interrupts (s : Search σ S) (d : Discovery σ S ρ) (ending : Ending ρ) (last : Discovery σ S ρ) : Prop :=
  s.lifetime.isOver d.now = true ∧
    (ending = .endless ∨ ∃ reason, s.lifetime.interruption? d.now = some reason ∧ ending = .interrupted reason) ∧
    ∃ closed moved, s.Closes d closed ∧ last = { closed with moved }

/-- An interruption is no end of its own. -/
theorem Interrupts.not_natural (hinterrupts : s.Interrupts d ending last) : ending.isNatural = false := by
  obtain ⟨-, rfl | ⟨reason, -, rfl⟩, -⟩ := hinterrupts <;> rfl

theorem Interrupts.kept (hinterrupts : s.Interrupts d ending last) : s.Kept d last := by
  obtain ⟨hover, -, closed, moved, hcloses, rfl⟩ := hinterrupts
  obtain ⟨hnow, hnetwork, hatEnd, hhistory⟩ := Kept.of_closes hover hcloses
  exact ⟨hnow, hnetwork, hatEnd, hhistory⟩

theorem run_of_isOver (hover : s.lifetime.isOver d.now = true) {fuel : Nat}
    (hrun : s.run read fuel d = (ending, last)) : s.Interrupts d ending last := by
  induction fuel generalizing d with
  | zero =>
    -- Fuel that is spent before the reader looks counts as a wait without end.
    cases hrun
    exact ⟨hover, .inl rfl, last, last.moved, .refl, rfl⟩
  | succ fuel ih =>
    obtain ⟨reason, hreason, hstep⟩ | ⟨next, hstep, hwinds⟩ := step_of_isOver read hover
    · simp only [run, hstep] at hrun
      cases hrun
      exact ⟨hover, .inr ⟨reason, hreason, rfl⟩, d, d.moved + 1, .refl, rfl⟩
    · simp only [run, hstep] at hrun
      have hnow := (Kept.of_winds hover hwinds).now
      obtain ⟨-, hending, closed, moved, hcloses, hlast⟩ := ih (hnow ▸ hover) hrun
      exact ⟨hover, hnow ▸ hending, closed, moved, .head hwinds hcloses, hlast⟩

/-- How a discovery ends while its call lasts, or after it waited for the end of the call. -/
inductive Leaves (s : Search σ S) (read : Reader ρ) (before : Discovery σ S ρ) (ending : Ending ρ)
    (last : Discovery σ S ρ) : Prop
  | step (hstep : s.Step read before (.ended ending last))
  | waited {limit : Instant} (hwaits : s.Waits before limit)
    (hinterrupts : s.Interrupts { before with now := limit } ending last)

theorem run_spec {P : Discovery σ S ρ → Prop}
    (hkeep : ∀ {d next}, s.lifetime.isOver d.now = false → P d → s.Step read d (.going next) → P next)
    {fuel : Nat} (hrunning : s.Running d) (hd : P d) (hrun : s.run read fuel d = (ending, last)) :
    (ending = .endless ∧ s.Running last ∧ P last) ∨
      ∃ before, s.Running before ∧ P before ∧ s.Leaves read before ending last := by
  induction fuel generalizing d with
  | zero =>
    cases hrun
    exact .inl ⟨rfl, hrunning, hd⟩
  | succ fuel ih =>
    rw [run] at hrun
    obtain hstep | ⟨limit, hwaits, hstep⟩ := hrunning.step_spec read
    · split at hrun
      · next result final hended =>
        cases hrun
        rw [hended] at hstep
        exact .inr ⟨d, hrunning, hd, .step hstep⟩
      · next next hgoing =>
        rw [hgoing] at hstep
        exact ih (hrunning.step hstep) (hkeep hrunning.lasting hd hstep) hrun
    · rw [hstep] at hrun
      exact .inr ⟨d, hrunning, hd, .waited hwaits (run_of_isOver hwaits.isOver hrun)⟩

/-- A discovery that has begun its first queries. -/
def begin (s : Search σ S) (now : Instant) (network : σ) (init : ρ) : Discovery σ S ρ :=
  s.seed { s.initial now network init with moved := 1 }

theorem Running.begin (hlasting : s.lifetime.isOver now = false) : s.Running (s.begin now network init) :=
  advance hlasting rfl rfl

/-- If the call lasts, the first thing to happen is that the engine begins. -/
theorem step_initial (hlasting : s.lifetime.isOver now = false) :
    s.step read (s.initial now network init) = .going (s.begin now network init) := by
  have hpoll : s.lifetime.poll? (s.initial now network init).now = none :=
    Lifetime.poll?_of_isOver_eq_false hlasting
  have hmoves : s.moves (s.initial now network init) = [.seed] := by
    simp only [moves, readerMoves, engineMoves, queryMoves, supervisorMoves, hpoll]
    rfl
  simp only [step, hmoves, List.length_singleton, Nat.mod_one]
  rfl

/-- A discovery that neither is over as it begins nor waits for ever comes to its end from a state with all
    properties that its beginning has and its steps keep. -/
theorem discover_spec {P : Discovery σ S ρ → Prop}
    (hbegin : s.lifetime.isOver now = false → P (s.begin now network init))
    (hkeep : ∀ {d next}, s.lifetime.isOver d.now = false → P d → s.Step read d (.going next) → P next)
    (hdiscover : s.discover read init now network = (ending, last)) :
    s.Interrupts (s.initial now network init) ending last ∨
      (ending = .endless ∧ s.Running last ∧ P last) ∨
      ∃ before, s.Running before ∧ P before ∧ s.Leaves read before ending last := by
  unfold discover at hdiscover
  cases hover : s.lifetime.isOver now with
  | true => exact .inl (run_of_isOver hover hdiscover)
  | false =>
    rw [run, step_initial hover] at hdiscover
    exact .inr (run_spec hkeep (.begin hover) (hbegin hover) hdiscover)

end Search

end DhtStore
