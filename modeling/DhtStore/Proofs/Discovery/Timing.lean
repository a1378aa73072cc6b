import DhtStore.Proofs.Discovery.Accounts
import DhtStore.Proofs.Discovery.Termination

namespace DhtStore

variable {σ S ρ : Type}

namespace Search

variable {s : Search σ S} {read : Reader ρ} {init : ρ} {start : Instant} {network : σ}
  {d next last : Discovery σ S ρ} {ending : Ending ρ}

/-- A discovery under way: an engine with nothing left to ask has let it be known unless it keeps silent. -/
structure UnderWay (s : Search σ S) (d : Discovery σ S ρ) : Prop where
  silent : d.inFlight = [] → d.ended = [] → d.atEnd = false → s.engine.atEnd = .hang
  announced : d.atEnd = true → s.engine.atEnd ≠ .hang

namespace UnderWay

theorem advance (hlasting : s.lifetime.isOver d.now = false) : s.UnderWay (s.advance d) where
  silent hflying hended hatEnd := by
    simp only [Search.advance] at hflying hended hatEnd
    simpa [hflying, hended, hlasting] using hatEnd
  announced hatEnd := by
    simp only [Search.advance, Bool.and_eq_true, decide_eq_true_eq] at hatEnd
    exact hatEnd.1.1.1

theorem step (hlasting : s.lifetime.isOver d.now = false) (hunderWay : s.UnderWay d)
    (hstep : s.Step read d (.going next)) : s.UnderWay next := by
  cases hstep with
  | reading _ _ => exact ⟨hunderWay.silent, hunderWay.announced⟩
  | reported _ => exact advance hlasting
  | landed _ _ =>
    refine ⟨?_, hunderWay.announced⟩
    intro _ hended
    exact absurd hended (List.append_ne_nil_of_right_ne_nil _ (List.cons_ne_nil _ _))
  | passed _ _ _ hsome _ _ =>
    refine ⟨?_, hunderWay.announced⟩
    intro hflying
    obtain ⟨flight, hflight, -⟩ := hsome
    have hnone : d.inFlight = [] := hflying
    rw [hnone] at hflight
    cases hflight

end UnderWay

/-- A discovery that is not over as it begins comes to its end from a state in which it is under way and its accounts
    are in order. -/
theorem last_step_of_discover (hlawful : s.engine.Lawful)
    (hdiscover : s.discover read init start network = (ending, last)) :
    (∃ reason, ending = .interrupted reason ∧ s.Interrupts (s.initial start network init) ending last) ∨
    (s.lifetime.isOver start = false ∧ ∃ before, s.Running before ∧ s.Leaves read before ending last ∧
      (ending = .endless → s.Step read before (.ended ending last)) ∧
      s.Accounts read init start network before ∧ s.UnderWay before) := by
  obtain hover | ⟨hlasting, before, hrunning, hunderWay, hleaves, hendless, haccounts, -⟩ :=
    discover_ends (P := s.UnderWay) hlawful (fun hlasting => .advance hlasting)
      (fun hlasting hunderWay hstep => hunderWay.step hlasting hstep) hdiscover
  · exact .inl hover
  · exact .inr ⟨hlasting, before, hrunning, hleaves, hendless, haccounts, hunderWay⟩

/-- A discovery ends of itself only while its lifetime lasts. -/
theorem lasting_of_natural (hlawful : s.engine.Lawful)
    (hdiscover : s.discover read init start network = (ending, last))
    (hnatural : ending.isNatural = true) :
    start ≤ last.now ∧ s.lifetime.isOver last.now = false := by
  obtain ⟨_, rfl, _⟩ | ⟨-, before, hrunning, hleaves, -, haccounts, -⟩ := last_step_of_discover hlawful hdiscover
  · cases hnatural
  · cases hleaves with
    | step hstep =>
      cases hstep with
      | resolved _ _ | exhausted _ _ => exact ⟨haccounts.start_le, hrunning.lasting⟩
      | endless _ _ _ _ _ => cases hnatural
    | waited _ hinterrupts => cases hnatural.symm.trans hinterrupts.not_natural

/-- Who finds the call over finds it so at the instant at which it looks. -/
theorem Interrupts.reason_eq {reason : Interruption} (hinterrupts : s.Interrupts d (.interrupted reason) last) :
    s.lifetime.interruption? last.now = some reason := by
  obtain hending | ⟨_, hreason, hending⟩ := hinterrupts.2.1
  · cases hending
  · cases hending
    rw [hinterrupts.kept.now, hreason]

/-- A discovery is cut short at the first instant at which its lifetime is over. -/
theorem ends_of_interrupted (hlawful : s.engine.Lawful) {reason : Interruption}
    (hdiscover : s.discover read init start network = (.interrupted reason, last)) :
    s.lifetime.interruption? last.now = some reason ∧
      ∃ limit, s.lifetime.endsAt? = some limit ∧ last.now = max start limit := by
  obtain ⟨_, -, hinterrupts⟩ | ⟨hlasting, before, -, hleaves, -⟩ := last_step_of_discover hlawful hdiscover
  · obtain ⟨limit, hends, hle⟩ := Lifetime.isOver_iff.1 hinterrupts.1
    have hnow : last.now = start := hinterrupts.kept.now
    exact ⟨hinterrupts.reason_eq, limit, hends, hnow.trans (Nat.max_eq_left hle).symm⟩
  · cases hleaves with
    | step hstep => cases hstep
    | @waited limit hwaits hinterrupts =>
      have hlater := (Lifetime.isOver_eq_false_iff_lt hwaits.ends).1 hlasting
      have hnow : last.now = limit := hinterrupts.kept.now
      exact ⟨hinterrupts.reason_eq, limit, hwaits.ends,
        hnow.trans (Nat.max_eq_right (Nat.le_of_lt hlater)).symm⟩

theorem now_of_interrupted (hlawful : s.engine.Lawful) {reason : Interruption}
    (hdiscover : s.discover read init start network = (.interrupted reason, last)) :
    ∃ instant, s.lifetime.instantOf? reason = some instant ∧ last.now = max start instant := by
  obtain ⟨hreason, limit, hends, hnow⟩ := ends_of_interrupted hlawful hdiscover
  obtain ⟨instant, hinstant, hle⟩ := Lifetime.exists_instantOf? hreason
  have hover := Lifetime.le_of_endsAt? hends hinstant
  refine ⟨instant, hinstant, Nat.le_antisymm ?_ ?_⟩
  · rw [hnow]
    exact Nat.max_le.2 ⟨Nat.le_max_left _ _, Nat.le_trans hover (Nat.le_max_right _ _)⟩
  · exact Nat.max_le.2 ⟨hnow ▸ Nat.le_max_left start limit, hle⟩

/-- Only with an engine that keeps silent, and under a lifetime without end, a discovery waits for ever. -/
theorem silent_of_endless (hlawful : s.engine.Lawful)
    (hdiscover : s.discover read init start network = (.endless, last)) :
    s.engine.atEnd = .hang ∧ s.lifetime.endsAt? = none := by
  obtain ⟨_, hending, _⟩ | ⟨-, before, -, -, hstep, -, hunderWay⟩ := last_step_of_discover hlawful hdiscover
  · cases hending
  · cases hstep rfl with
    | endless _ hended hflying hatEnd hends => exact ⟨hunderWay.silent hflying hended hatEnd, hends⟩

/-- Without a limit and with an engine that does not keep silent, a discovery ends of itself. -/
theorem natural_of_forever (hlawful : s.engine.Lawful) (hatEnd : s.engine.atEnd ≠ .hang)
    (hforever : s.lifetime.endsAt? = none)
    (hdiscover : s.discover read init start network = (ending, last)) : ending.isNatural = true := by
  cases ending with
  | resolved item => rfl
  | exhausted state => rfl
  | interrupted reason =>
    obtain ⟨-, limit, hends, -⟩ := ends_of_interrupted hlawful hdiscover
    cases hforever.symm.trans hends
  | endless => exact absurd (silent_of_endless hlawful hdiscover).1 hatEnd

theorem not_silent_of_exhausted (hlawful : s.engine.Lawful) {state : ρ}
    (hdiscover : s.discover read init start network = (.exhausted state, last)) :
    s.engine.atEnd ≠ .hang := by
  obtain ⟨_, hending, _⟩ | ⟨-, before, -, hleaves, -, -, hunderWay⟩ := last_step_of_discover hlawful hdiscover
  · cases hending
  · cases hleaves with
    | step hstep =>
      cases hstep with
      | exhausted _ hatEnd => exact hunderWay.announced hatEnd
    | waited _ hinterrupts => cases hinterrupts.not_natural

/-- The same search under another lifetime. -/
def within (s : Search σ S) (lifetime : Lifetime) : Search σ S := { s with lifetime }

section

variable {lifetime : Lifetime}

/-- A step that a lifetime allows, by which a discovery goes on or ends of itself. -/
def Allows (lifetime : Lifetime) : Progress σ S ρ → Prop
  | .ended ending _ => ending.isNatural = true
  | .going next => lifetime.isOver next.now = false

section

variable (hlasting : s.lifetime.isOver d.now = false) (hwithin : lifetime.isOver d.now = false)

include hlasting hwithin

theorem moves_within : (s.within lifetime).moves d = s.moves d := by
  have hpoll := Lifetime.poll?_of_isOver_eq_false hlasting
  have hother : (s.within lifetime).lifetime.poll? d.now = none := Lifetime.poll?_of_isOver_eq_false hwithin
  simp only [moves, readerMoves, queryMoves, supervisorMoves, hpoll, hother]

theorem ask_within (node : Node) : (s.within lifetime).ask d node = s.ask d node := by
  have hother : (s.within lifetime).lifetime.isOver d.now = false := hwithin
  rw [ask_of_lasting hlasting, ask_of_lasting hother]
  rfl

theorem foldl_ask_within (nodes : List Node) :
    nodes.foldl (s.within lifetime).ask d = nodes.foldl s.ask d := by
  induction nodes generalizing d with
  | nil => rfl
  | cons node nodes ih =>
    have hnow : (s.ask d node).now = d.now := now_foldl_ask [node]
    rw [List.foldl_cons, ask_within hlasting hwithin, ih (hnow ▸ hlasting) (hnow ▸ hwithin), List.foldl_cons]

theorem advance_within : (s.within lifetime).advance d = s.advance d := by
  let wanted := s.engine.next (d.inFlight.length + d.ended.length) d.engine
  have hbegun : wanted.1.foldl (s.within lifetime).ask { d with engine := wanted.2 } =
      wanted.1.foldl s.ask { d with engine := wanted.2 } :=
    foldl_ask_within (d := { d with engine := wanted.2 }) hlasting hwithin wanted.1
  have hother : (s.within lifetime).lifetime.isOver d.now = false := hwithin
  have hengine : (s.within lifetime).engine = s.engine := rfl
  simp only [advance, hengine, hother, hlasting]
  rw [hbegun]

theorem perform_within (move : Move) : (s.within lifetime).perform read d move = s.perform read d move := by
  cases move with
  | seed =>
    exact congrArg Progress.going (advance_within (d := { d with engine := _, seeded := true }) hlasting hwithin)
  | report flight rest =>
    exact congrArg Progress.going (advance_within (d := { d with engine := _, ended := rest }) hlasting hwithin)
  | _ => rfl

end

/-- The next instant is that at which the next query is due, if the lifetime lasts until then. -/
theorem wakesAt?_eq_some_iff {time : Instant} (hlasting : s.lifetime.isOver time = false) :
    s.wakesAt? d = some time ↔ (d.inFlight.map Flight.due).min? = some time := by
  unfold wakesAt?
  rw [List.min?_eq_some_iff, List.min?_eq_some_iff]
  have hends : ∀ limit ∈ s.lifetime.endsAt?.toList, time < limit := fun limit hlimit =>
    (Lifetime.isOver_eq_false_iff_lt (Option.mem_toList.1 hlimit)).1 hlasting
  constructor
  · rintro ⟨hmem, hle⟩
    refine ⟨(List.mem_append.1 hmem).resolve_left fun hlimit => Nat.lt_irrefl time (hends time hlimit), ?_⟩
    exact fun due hdue => hle due (List.mem_append_right _ hdue)
  · rintro ⟨hmem, hle⟩
    refine ⟨List.mem_append_right _ hmem, fun due hdue => ?_⟩
    exact (List.mem_append.1 hdue).elim (fun hlimit => Nat.le_of_lt (hends due hlimit)) (hle due)

theorem pass_within (hallows : Allows s.lifetime (s.pass d)) (hwithin : Allows lifetime (s.pass d)) :
    (s.within lifetime).pass d = s.pass d := by
  cases hwakes : s.wakesAt? d with
  | none =>
    simp only [pass, hwakes] at hallows
    cases hallows
  | some time =>
    simp only [pass, hwakes] at hallows hwithin ⊢
    have hother : (s.within lifetime).lifetime.isOver time = false := hwithin
    have hsame : (s.within lifetime).wakesAt? d = some time :=
      (wakesAt?_eq_some_iff hother).2 ((wakesAt?_eq_some_iff hallows).1 hwakes)
    rw [hsame]

theorem step_within (hlasting : s.lifetime.isOver d.now = false) (hstill : lifetime.isOver d.now = false)
    (hallows : Allows s.lifetime (s.step read d)) (hwithin : Allows lifetime (s.step read d)) :
    (s.within lifetime).step read d = s.step read d := by
  have hmoves : (s.within lifetime).moves d = s.moves d := moves_within hlasting hstill
  have hschedule : (s.within lifetime).schedule = s.schedule := rfl
  cases hmove : (s.moves d)[s.schedule d.moved % (s.moves d).length]? with
  | some move =>
    simp only [step, hschedule, hmoves, hmove]
    exact perform_within (d := { d with moved := d.moved + 1 }) hlasting hstill move
  | none =>
    simp only [step, hschedule, hmoves, hmove] at hallows hwithin ⊢
    exact pass_within hallows hwithin

theorem Accounts.now_le_of_step (haccounts : s.Accounts read init start network d)
    (hstep : s.Step read d (.going next)) : d.now ≤ next.now := by
  cases hstep with
  | reading _ _ => exact Nat.le_refl _
  | reported _ =>
    unfold resume
    rw [now_advance]
  | landed _ _ => exact Nat.le_refl _
  | passed _ _ _ hsome _ _ =>
    obtain ⟨flight, hflight, rfl⟩ := hsome
    exact haccounts.due flight hflight

theorem Accounts.now_le_of_run (haccounts : s.Accounts read init start network d) (hrunning : s.Running d)
    {fuel : Nat} (hnatural : ending.isNatural = true) (hrun : s.run read fuel d = (ending, last)) :
    d.now ≤ last.now := by
  obtain ⟨rfl, -⟩ | ⟨before, -, ⟨-, hnow⟩, hleaves⟩ := run_spec
    (P := fun later => s.Accounts read init start network later ∧ d.now ≤ later.now)
    (fun hlasting hlater hstep =>
      ⟨hlater.1.step hlasting hstep, Nat.le_trans hlater.2 (hlater.1.now_le_of_step hstep)⟩)
    hrunning ⟨haccounts, Nat.le_refl _⟩ hrun
  · cases hnatural
  · cases hleaves with
    | step hstep =>
      cases hstep with
      | resolved _ _ | exhausted _ _ => exact hnow
      | endless _ _ _ _ _ => cases hnatural
    | waited _ hinterrupts => cases hnatural.symm.trans hinterrupts.not_natural

/-- Time does not run backwards, so a lifetime that lasts until the end of a run allows each step of it. -/
theorem run_within (haccounts : s.Accounts read init start network d) (hrunning : s.Running d) {fuel : Nat}
    (hnatural : ending.isNatural = true) (hlasting : lifetime.isOver last.now = false)
    (hrun : s.run read fuel d = (ending, last)) :
    (s.within lifetime).run read fuel d = (ending, last) := by
  induction fuel generalizing d with
  | zero =>
    cases hrun
    cases hnatural
  | succ fuel ih =>
    have hstill : lifetime.isOver d.now = false :=
      Lifetime.isOver_eq_false_of_le (haccounts.now_le_of_run hrunning hnatural hrun) hlasting
    rw [run] at hrun ⊢
    obtain hstep | ⟨limit, hwaits, hstep⟩ := hrunning.step_spec read
    · cases hprogress : s.step read d with
      | ended result final =>
        rw [hprogress] at hrun
        cases hrun
        have hallows (lifetime : Lifetime) : Allows lifetime (s.step read d) := by
          rw [hprogress]
          exact hnatural
        rw [step_within hrunning.lasting hstill (hallows _) (hallows _), hprogress]
      | going next =>
        rw [hprogress] at hrun hstep
        have hnext := haccounts.step hrunning.lasting hstep
        have hafter := hrunning.step hstep
        have hallows : Allows s.lifetime (s.step read d) := by
          rw [hprogress]
          exact hafter.lasting
        have hwithin : Allows lifetime (s.step read d) := by
          rw [hprogress]
          exact Lifetime.isOver_eq_false_of_le (hnext.now_le_of_run hafter hnatural hrun) hlasting
        rw [step_within hrunning.lasting hstill hallows hwithin, hprogress]
        exact ih hnext hafter hrun
    · rw [hstep] at hrun
      cases hnatural.symm.trans (run_of_isOver hwaits.isOver hrun).not_natural

/-- A discovery that ends of itself ends in the same way, after the same events, under every lifetime that
    lasts until then. -/
theorem discover_within (hnatural : ending.isNatural = true) (hlasting : lifetime.isOver last.now = false)
    (hdiscover : s.discover read init start network = (ending, last)) :
    (s.within lifetime).discover read init start network = (ending, last) := by
  unfold discover at hdiscover ⊢
  cases hover : s.lifetime.isOver start with
  | true => cases hnatural.symm.trans (run_of_isOver hover hdiscover).not_natural
  | false =>
    have haccounts : s.Accounts read init start network (s.begin start network init) := .begin hover
    rw [run, step_initial hover] at hdiscover
    have hstill : lifetime.isOver start = false := by
      have hbegun : (s.begin start network init).now = start := now_advance
      have hstart := haccounts.now_le_of_run (.begin hover) hnatural hdiscover
      rw [hbegun] at hstart
      exact Lifetime.isOver_eq_false_of_le hstart hlasting
    have hinitial : (s.within lifetime).initial start network init = s.initial start network init := rfl
    have hbegin : (s.within lifetime).begin start network init = s.begin start network init :=
      advance_within (d := { s.initial start network init with engine := _, seeded := true, moved := 1 }) hover hstill
    rw [run, step_initial (s := s.within lifetime) hstill, hbegin]
    exact run_within haccounts (.begin hover) hnatural hlasting hdiscover

end

/-- No discovery outlasts its lifetime. -/
theorem now_le_of_endsAt? (hlawful : s.engine.Lawful)
    (hdiscover : s.discover read init start network = (ending, last)) {limit : Instant}
    (hends : s.lifetime.endsAt? = some limit) : ending ≠ .endless ∧ last.now ≤ max start limit := by
  cases ending with
  | endless =>
    rw [(silent_of_endless hlawful hdiscover).2] at hends
    cases hends
  | interrupted reason =>
    obtain ⟨-, _, hsame, hnow⟩ := ends_of_interrupted hlawful hdiscover
    rw [hends] at hsame
    cases hsame
    exact ⟨nofun, Nat.le_of_eq hnow⟩
  | _ =>
    obtain ⟨-, hlasting⟩ := lasting_of_natural hlawful hdiscover rfl
    have hearly := (Lifetime.isOver_eq_false_iff_lt hends).1 hlasting
    exact ⟨nofun, Nat.le_trans (Nat.le_of_lt hearly) (Nat.le_max_right start limit)⟩

/-- A discovery with a deadline ends, and no later. -/
theorem now_le_of_deadline (hlawful : s.engine.Lawful)
    (hdiscover : s.discover read init start network = (ending, last)) {deadline : Instant}
    (hdeadline : s.lifetime.deadline = some deadline) :
    ending ≠ .endless ∧ last.now ≤ max start deadline := by
  have hinstant : s.lifetime.instantOf? .deadlineExceeded = some deadline := hdeadline
  obtain ⟨limit, hends⟩ := Lifetime.exists_endsAt? hinstant
  obtain ⟨hend, hnow⟩ := now_le_of_endsAt? hlawful hdiscover hends
  have hlimit : limit ≤ max start deadline :=
    Nat.le_trans (Lifetime.le_of_endsAt? hends hinstant) (Nat.le_max_right start deadline)
  exact ⟨hend, Nat.le_trans hnow (Nat.max_le.2 ⟨Nat.le_max_left start deadline, hlimit⟩)⟩

/-- A discovery that would last until some instant, or for ever, is cut short there by a cancellation. -/
theorem discover_cancelledAt (hlawful : s.engine.Lawful) {cancel : Instant}
    (hdiscover : s.discover read init start network = (ending, last))
    (hlong : ending ≠ .endless → cancel ≤ last.now) :
    ∃ cut, (s.within (s.lifetime.cancelledAt (some cancel))).discover read init start network =
      (.interrupted .canceled, cut) ∧ cut.now = max start cancel := by
  let shorter := s.lifetime.cancelledAt (some cancel)
  have hends : shorter.endsAt? = some (s.lifetime.endsAt?.elim cancel (min · cancel)) :=
    s.lifetime.endsAt?_cancelledAt cancel
  have hsame : max start (s.lifetime.endsAt?.elim cancel (min · cancel)) = max start cancel := by
    cases hover : s.lifetime.endsAt? with
    | none => rfl
    | some limit =>
      obtain ⟨hend, hnow⟩ := now_le_of_endsAt? hlawful hdiscover hover
      have hcancel := Nat.le_trans (hlong hend) hnow
      change max start (min limit cancel) = max start cancel
      grind
  have hlawfulCut : (s.within shorter).engine.Lawful := hlawful
  cases hcut : (s.within shorter).discover read init start network with
  | mk result cut =>
    cases result with
    | endless =>
      have hnever := (silent_of_endless hlawfulCut hcut).2
      rw [show (s.within shorter).lifetime = shorter from rfl, hends] at hnever
      cases hnever
    | interrupted reason =>
      obtain ⟨hreason, _, hover, hnow⟩ := ends_of_interrupted hlawfulCut hcut
      rw [show (s.within shorter).lifetime = shorter from rfl, hends] at hover
      cases hover
      rw [hsame] at hnow
      have hcanceled : shorter.interruption? cut.now = some .canceled := by
        rw [hnow]
        exact Lifetime.interruption?_cancelledAt (Nat.le_max_right start cancel)
      cases hcanceled.symm.trans hreason
      exact ⟨cut, rfl, hnow⟩
    | _ =>
      obtain ⟨-, hlasting⟩ := lasting_of_natural hlawfulCut hcut rfl
      obtain ⟨hearly, huncut⟩ := Lifetime.isOver_cancelledAt_eq_false_iff.1 hlasting
      have hsame : s.discover read init start network = (_, cut) :=
        discover_within (s := s.within shorter) rfl huncut hcut
      cases hdiscover.symm.trans hsame
      exact absurd hearly (Nat.not_lt.2 (hlong nofun))

end Search

end DhtStore
