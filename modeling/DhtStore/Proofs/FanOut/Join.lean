import DhtStore.Proofs.FanOut.Slots
import DhtStore.ScriptedNetwork
import Mathlib.Data.List.Nodup
import Mathlib.Logic.Relation

namespace DhtStore

namespace FanOut

/-- A fan-out under way: the writes, each with the place of its node, and the caller that waits for them. -/
structure Joining where
  now : Instant
  running : List (Nat × Conduct)
  /-- The writes that are over but not noted yet, each with its outcome unless it ended abnormally. -/
  finished : List (Nat × Option WriteOutcome)
  /-- What the caller has noted for each node. -/
  outcomes : List WriteOutcome
  returned : Bool

namespace Joining

/-- A fan-out that has just spawned its writes. -/
def begin (now : Instant) (postings : List Posting) : Joining where
  now
  running := postings.zipIdx.filterMap fun (posting, place) => posting.conduct.map (place, ·)
  finished := []
  outcomes := postings.map fun _ => .interrupted
  returned := false

/-- At an instant nobody has anything to do: the caller waits for writes that are all pending. -/
structure Idle (j : Joining) (lifetime : Lifetime) (start timeout : Nat) (time : Instant) : Prop where
  lasting : lifetime.isOver time = false
  finished : j.finished = []
  running : j.running ≠ []
  pending : ∀ write ∈ j.running, write.2.poll start timeout time = none

/-- One of the tasks that can do something is woken and does it; or time passes if there is none. -/
inductive Wakes (lifetime : Lifetime) (start timeout : Nat) (j : Joining) : Joining → Prop
  /-- A write ends, with an outcome or abnormally. -/
  | ended {place : Nat} {conduct : Conduct} {ending : Option WriteOutcome} {rest : List (Nat × Conduct)}
    (hgoing : j.returned = false) (hrunning : j.running.Perm ((place, conduct) :: rest))
    (hpoll : conduct.poll start timeout j.now = some ending) :
    Wakes lifetime start timeout j { j with running := rest, finished := j.finished ++ [(place, ending)] }
  /-- The caller notes the outcome of a write. -/
  | noted {place : Nat} {outcome : WriteOutcome} {rest : List (Nat × Option WriteOutcome)}
    (hgoing : j.returned = false) (hlasting : lifetime.isOver j.now = false)
    (hfinished : j.finished.Perm ((place, some outcome) :: rest)) :
    Wakes lifetime start timeout j { j with finished := rest, outcomes := j.outcomes.set place outcome }
  /-- The caller learns that a write ended abnormally, and has nothing to note. -/
  | lost {place : Nat} {rest : List (Nat × Option WriteOutcome)}
    (hgoing : j.returned = false) (hlasting : lifetime.isOver j.now = false)
    (hfinished : j.finished.Perm ((place, none) :: rest)) :
    Wakes lifetime start timeout j { j with finished := rest }
  /-- The caller finds the lifetime over, whatever else it might find, and aborts the writes. -/
  | interrupted (hgoing : j.returned = false) (hover : lifetime.isOver j.now = true) :
    Wakes lifetime start timeout j { j with returned := true }
  /-- The caller finds no write left. -/
  | joined (hgoing : j.returned = false) (hlasting : lifetime.isOver j.now = false) (hrunning : j.running = [])
    (hfinished : j.finished = []) :
    Wakes lifetime start timeout j { j with returned := true }
  | passed {later : Instant} (hgoing : j.returned = false) (hlater : j.now < later)
    (hidle : ∀ time, j.now ≤ time → time < later → j.Idle lifetime start timeout time) :
    Wakes lifetime start timeout j { j with now := later }

variable {lifetime : Lifetime} {start timeout : Nat} {postings : List Posting} {j next : Joining}

/-- The places of the nodes whose writes are not noted yet. -/
def pending (j : Joining) : List Nat := j.running.map Prod.fst ++ j.finished.map Prod.fst

/-- What is left to do and to wait for in a fan-out. -/
def work (start timeout : Nat) (j : Joining) : Nat :=
  2 * j.running.length + j.finished.length + (start + timeout - j.now) + if j.returned then 0 else 1

/-- Time does not pass beyond the instant at which a write is due. -/
theorem le_due_of_idle {later : Instant} (hlater : j.now < later)
    (hidle : ∀ time, j.now ≤ time → time < later → j.Idle lifetime start timeout time) :
    ∀ write ∈ j.running, later ≤ (write.2.conclude start timeout).1 := by
  intro write hwrite
  have hlast := hidle (later - 1) (Nat.le_sub_one_of_lt hlater) (Nat.sub_one_lt_of_lt hlater)
  exact Nat.le_of_pred_lt (Conduct.poll_eq_none_iff.1 (hlast.pending write hwrite))

/-- What stands at any time of a fan-out: each write is under way, over at this very instant, or noted in its own
    place and over within the lifetime. -/
structure Sound (lifetime : Lifetime) (start timeout : Nat) (postings : List Posting) (j : Joining) : Prop where
  places : j.pending.Nodup
  running : ∀ place conduct, (place, conduct) ∈ j.running →
    (∃ node, postings[place]? = some ⟨node, some conduct⟩) ∧ j.now ≤ (conduct.conclude start timeout).1
  finished : ∀ place ending, (place, ending) ∈ j.finished → ∃ node conduct,
    postings[place]? = some ⟨node, some conduct⟩ ∧ conduct.conclude start timeout = (j.now, ending)
  outcomes : ∀ place, j.outcomes[place]? = postings[place]?.map fun posting =>
    if place ∈ j.pending then .interrupted else (posting.slot start timeout).outcome lifetime
  settled : ∀ place node conduct, postings[place]? = some ⟨node, some conduct⟩ → place ∉ j.pending →
    (conduct.conclude start timeout).1 ≤ j.now
  begun : start ≤ j.now
  /-- Time has not passed but for a write. -/
  waited : j.now ≤ finish start (postings.map (Posting.slot start timeout))
  lasting : ∀ earlier, start ≤ earlier → earlier < j.now → lifetime.isOver earlier = false
  returned : j.returned = true →
    lifetime.isOver j.now = true ∨ lifetime.isOver j.now = false ∧ j.pending = []

theorem due_le_finish {postings : List Posting} {place : Nat} {node : Node} {conduct : Conduct}
    (hposting : postings[place]? = some ⟨node, some conduct⟩) :
    (conduct.conclude start timeout).1 ≤ finish start (postings.map (Posting.slot start timeout)) := by
  obtain ⟨-, hdues⟩ := finish_le_iff.1 (Nat.le_refl (finish start (postings.map (Posting.slot start timeout))))
  refine hdues _ (List.mem_filterMap.2 ⟨_, List.mem_map_of_mem (List.mem_of_getElem? hposting), ?_⟩)
  rfl

namespace Sound

theorem begin (lifetime : Lifetime) (start timeout : Nat) (postings : List Posting) :
    (Joining.begin start postings).Sound lifetime start timeout postings := by
  have hrunning (place : Nat) (conduct : Conduct) :
      (place, conduct) ∈ (Joining.begin start postings).running ↔
        ∃ node, postings[place]? = some ⟨node, some conduct⟩ := by
    simp only [Joining.begin, List.mem_filterMap, Prod.exists, List.mem_zipIdx_iff_getElem?,
      Option.map_eq_some_iff, Prod.mk.injEq]
    constructor
    · rintro ⟨⟨node, _⟩, _, hposting, _, rfl, rfl, rfl⟩
      exact ⟨node, hposting⟩
    · rintro ⟨node, hposting⟩
      exact ⟨_, place, hposting, conduct, rfl, rfl, rfl⟩
  have hpending (place : Nat) (node : Node) (conduct : Conduct)
      (hposting : postings[place]? = some ⟨node, some conduct⟩) :
      place ∈ (Joining.begin start postings).pending :=
    List.mem_append_left _ (List.mem_map.2 ⟨_, (hrunning place conduct).2 ⟨node, hposting⟩, rfl⟩)
  have hplaces : postings.zipIdx.Pairwise fun entry other => entry.2 ≠ other.2 :=
    List.pairwise_map.1 ((List.zipIdx_map_snd 0 postings).symm ▸ List.nodup_range')
  constructor
  · rw [pending, Joining.begin, List.map_nil, List.append_nil]
    refine List.pairwise_map.2 (List.pairwise_filterMap.2 (hplaces.imp ?_))
    rintro ⟨⟨_, conduct⟩, place⟩ ⟨⟨_, otherConduct⟩, other⟩ hne write hwrite otherWrite hother
    obtain ⟨_, -, rfl⟩ := Option.map_eq_some_iff.1 hwrite
    obtain ⟨_, -, rfl⟩ := Option.map_eq_some_iff.1 hother
    exact hne
  · intro place conduct hmem
    exact ⟨(hrunning place conduct).1 hmem, conduct.le_conclude⟩
  · exact nofun
  · intro place
    rw [Joining.begin, List.getElem?_map]
    cases hposting : postings[place]? with
    | none => rfl
    | some posting =>
      obtain ⟨node, conduct⟩ := posting
      cases conduct with
      | none => exact congrArg some (ite_self _).symm
      | some conduct => exact congrArg some (if_pos (hpending place node conduct hposting)).symm
  · exact fun place node conduct hposting hnot => absurd (hpending place node conduct hposting) hnot
  · exact Nat.le_refl start
  · exact le_finish _
  · exact fun earlier hle hlt => absurd hlt (Nat.not_lt.2 hle)
  · exact nofun

/-- The end of a write leaves its place open until the caller notes it. -/
theorem ended (hsound : j.Sound lifetime start timeout postings) (hgoing : j.returned = false) {place : Nat}
    {conduct : Conduct} {ending : Option WriteOutcome} {rest : List (Nat × Conduct)}
    (hrunning : j.running.Perm ((place, conduct) :: rest))
    (hpoll : conduct.poll start timeout j.now = some ending) :
    Sound lifetime start timeout postings
      { j with running := rest, finished := j.finished ++ [(place, ending)] } := by
  have hpending : (Joining.pending { j with running := rest, finished := j.finished ++ [(place, ending)] }).Perm
      j.pending := by
    have hopen : Joining.pending { j with running := rest, finished := j.finished ++ [(place, ending)] } =
        (rest.map Prod.fst ++ j.finished.map Prod.fst) ++ [place] := by
      simp [pending]
    exact hopen ▸ (List.perm_append_singleton ..).trans ((hrunning.map Prod.fst).append_right _).symm
  refine ⟨hpending.nodup_iff.2 hsound.places, fun other write hmem => ?_, fun other ending hmem => ?_,
    fun other => ?_, fun other node write hposting hnot => ?_, hsound.begun, hsound.waited, hsound.lasting,
    fun hreturned => nomatch hgoing.symm.trans hreturned⟩
  · exact hsound.running other write (hrunning.mem_iff.2 (List.mem_cons_of_mem _ hmem))
  · obtain hbefore | hnew := List.mem_append.1 hmem
    · exact hsound.finished other ending hbefore
    · cases List.mem_singleton.1 hnew
      obtain ⟨⟨node, hposting⟩, hdue⟩ := hsound.running place conduct (hrunning.mem_iff.2 (List.mem_cons_self ..))
      exact ⟨node, conduct, hposting, Conduct.conclude_of_poll hdue hpoll⟩
  · simp only [hpending.mem_iff]
    exact hsound.outcomes other
  · exact hsound.settled other node write hposting fun hmem => hnot (hpending.mem_iff.2 hmem)

/-- The place of a write that the caller has learnt of is closed, and holds the outcome of the write, as the lifetime
    lasts. -/
theorem closed (hsound : j.Sound lifetime start timeout postings) (hgoing : j.returned = false) {place : Nat}
    {ending : Option WriteOutcome} {rest : List (Nat × Option WriteOutcome)} {outcomes : List WriteOutcome}
    (hlasting : lifetime.isOver j.now = false) (hfinished : j.finished.Perm ((place, ending) :: rest))
    (hothers : ∀ other, other ≠ place → outcomes[other]? = j.outcomes[other]?)
    (hplace : outcomes[place]? = j.outcomes[place]?.map fun _ => ending.getD .interrupted) :
    Sound lifetime start timeout postings { j with finished := rest, outcomes } := by
  let after : Joining := { j with finished := rest, outcomes }
  change after.Sound lifetime start timeout postings
  have hpending : j.pending.Perm (place :: after.pending) :=
    ((hfinished.map Prod.fst).append_left _).trans List.perm_middle
  obtain ⟨hnoted, hnodup⟩ := List.nodup_cons.1 (hpending.nodup_iff.1 hsound.places)
  obtain ⟨node, conduct, hposting, hconclude⟩ :=
    hsound.finished place ending (hfinished.mem_iff.2 (List.mem_cons_self ..))
  have hstill {other : Nat} (hne : other ≠ place) : other ∈ j.pending ↔ other ∈ after.pending := by
    rw [hpending.mem_iff, List.mem_cons, or_iff_right hne]
  refine ⟨hnodup, hsound.running, fun other ending hmem => ?_, fun other => ?_,
    fun other node write hother hnot => ?_, hsound.begun, hsound.waited, hsound.lasting,
    fun hreturned => nomatch hgoing.symm.trans hreturned⟩
  · exact hsound.finished other ending (hfinished.mem_iff.2 (List.mem_cons_of_mem _ hmem))
  · by_cases hsame : other = place
    · subst hsame
      have hnow := hsound.outcomes other
      rw [hposting] at hnow
      change outcomes[other]? = _
      rw [hplace, hnow, hposting, Option.map_some, Option.map_some, Option.map_some, if_neg hnoted, outcome_slot,
        hconclude, hlasting]
      rfl
    · simp only [← hstill hsame]
      exact (hothers other hsame).trans (hsound.outcomes other)
  · by_cases hsame : other = place
    · subst hsame
      cases hposting.symm.trans hother
      exact Nat.le_of_eq (congrArg Prod.fst hconclude)
    · exact hsound.settled other node write hother fun hmem => hnot ((hstill hsame).1 hmem)

theorem noted (hsound : j.Sound lifetime start timeout postings) (hgoing : j.returned = false) {place : Nat}
    {outcome : WriteOutcome} {rest : List (Nat × Option WriteOutcome)} (hlasting : lifetime.isOver j.now = false)
    (hfinished : j.finished.Perm ((place, some outcome) :: rest)) :
    Sound lifetime start timeout postings { j with finished := rest, outcomes := j.outcomes.set place outcome } := by
  refine hsound.closed hgoing hlasting hfinished (fun other hne => List.getElem?_set_ne (Ne.symm hne)) ?_
  rw [List.getElem?_set_self']
  cases j.outcomes[place]? <;> rfl

/-- The slot of a write that ended abnormally is as it was at the beginning. -/
theorem lost (hsound : j.Sound lifetime start timeout postings) (hgoing : j.returned = false) {place : Nat}
    {rest : List (Nat × Option WriteOutcome)} (hlasting : lifetime.isOver j.now = false)
    (hfinished : j.finished.Perm ((place, none) :: rest)) :
    Sound lifetime start timeout postings { j with finished := rest } := by
  refine hsound.closed hgoing hlasting hfinished (fun _ _ => rfl) ?_
  have hpending : place ∈ j.pending :=
    List.mem_append_right _ (List.mem_map.2 ⟨_, hfinished.mem_iff.2 (List.mem_cons_self ..), rfl⟩)
  rw [hsound.outcomes place]
  cases postings[place]? <;> simp [hpending]

theorem wakes (hsound : j.Sound lifetime start timeout postings) (hwakes : Wakes lifetime start timeout j next) :
    next.Sound lifetime start timeout postings := by
  cases hwakes with
  | ended hgoing hrunning hpoll => exact hsound.ended hgoing hrunning hpoll
  | noted hgoing hlasting hfinished => exact hsound.noted hgoing hlasting hfinished
  | lost hgoing hlasting hfinished => exact hsound.lost hgoing hlasting hfinished
  | interrupted hgoing hover =>
    exact { hsound with returned := fun _ => .inl hover }
  | joined hgoing hlasting hrunning hfinished =>
    exact { hsound with returned := fun _ => .inr ⟨hlasting, by simp [pending, hrunning, hfinished]⟩ }
  | @passed later hgoing hlater hidle =>
    have hnow := hidle j.now (Nat.le_refl _) hlater
    have hdue := le_due_of_idle hlater hidle
    refine ⟨hsound.places, ?_, ?_, hsound.outcomes, ?_, ?_, ?_, ?_, ?_⟩
    · exact fun place conduct hmem => ⟨(hsound.running place conduct hmem).1, hdue _ hmem⟩
    · intro place ending hmem
      rw [hnow.finished] at hmem
      cases hmem
    · exact fun place node conduct hposting hnot =>
        Nat.le_trans (hsound.settled place node conduct hposting hnot) (Nat.le_of_lt hlater)
    · exact Nat.le_trans hsound.begun (Nat.le_of_lt hlater)
    · obtain ⟨⟨place, conduct⟩, hmem⟩ := List.exists_mem_of_ne_nil _ hnow.running
      obtain ⟨⟨node, hposting⟩, -⟩ := hsound.running place conduct hmem
      exact Nat.le_trans (hdue _ hmem) (due_le_finish hposting)
    · intro earlier hle hlt
      obtain hbefore | hafter := Nat.lt_or_ge earlier j.now
      · exact hsound.lasting earlier hle hbefore
      · exact (hidle earlier hafter hlt).lasting
    · exact fun hreturned => nomatch hgoing.symm.trans hreturned

theorem of_reaches (hreaches : Relation.ReflTransGen (Wakes lifetime start timeout) (.begin start postings) j) :
    j.Sound lifetime start timeout postings := by
  induction hreaches with
  | refl => exact .begin lifetime start timeout postings
  | tail _ hwakes ih => exact ih.wakes hwakes

theorem now_le (hsound : j.Sound lifetime start timeout postings) : j.now ≤ start + timeout := by
  refine Nat.le_trans hsound.waited (finish_le_iff.2 ⟨Nat.le_add_right .., fun due hdue => ?_⟩)
  obtain ⟨slot, hslot, hdue⟩ := List.mem_filterMap.1 hdue
  obtain ⟨⟨node, conduct⟩, -, rfl⟩ := List.mem_map.1 hslot
  cases conduct with
  | none => cases hdue
  | some conduct =>
    cases hdue
    exact conduct.conclude_le

end Sound

end Joining

variable {σ : Type}

end FanOut

end DhtStore
