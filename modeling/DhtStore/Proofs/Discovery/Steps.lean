import DhtStore.Discovery
import Mathlib.Data.List.Basic

namespace DhtStore

theorem exists_mem_picks {α : Type} {x : α} {xs : List α} (hmem : x ∈ xs) :
    ∃ others, (x, others) ∈ picks xs := by
  induction xs with
  | nil => cases hmem
  | cons y ys ih =>
    obtain rfl | hlater := List.mem_cons.1 hmem
    · exact ⟨ys, List.mem_cons_self ..⟩
    · obtain ⟨others, hpick⟩ := ih hlater
      exact ⟨y :: others, List.mem_cons_of_mem _ (List.mem_map.2 ⟨(x, others), hpick, rfl⟩)⟩

variable {σ S ρ : Type}

namespace Search

variable {s : Search σ S} {read : Reader ρ} {d next : Discovery σ S ρ}

theorem ask_of_lasting (hlasting : s.lifetime.isOver d.now = false) (node : Node) :
    s.ask d node =
      let sent := s.transport.get d.now node.address s.request d.network
      { d with
        network := sent.2
        inFlight := d.inFlight ++ [.depart d.now s.timeout node sent.1]
        history := d.history ++ [.asked d.now node s.request] } := by
  simp only [ask, Lifetime.poll?_of_isOver_eq_false hlasting]

theorem ask_of_isOver (hover : s.lifetime.isOver d.now = true) (node : Node) :
    s.ask d node =
      { d with
        inFlight := d.inFlight ++ [.depart d.now s.timeout node .never]
        history := d.history ++ [.unasked d.now node s.request] } := by
  obtain ⟨reason, hreason⟩ := Lifetime.exists_poll?_of_isOver hover
  simp only [ask, hreason]

theorem exists_inFlight_ask (s : Search σ S) (d : Discovery σ S ρ) (node : Node) :
    ∃ delivery, (s.ask d node).inFlight = d.inFlight ++ [.depart d.now s.timeout node delivery] := by
  cases hover : s.lifetime.isOver d.now with
  | true => exact ⟨_, by rw [ask_of_isOver hover]⟩
  | false => exact ⟨_, by rw [ask_of_lasting hover]⟩

/-- Beginning queries changes nothing but the network, what is in flight, and the history. -/
theorem exists_foldl_ask (s : Search σ S) (nodes : List Node) (d : Discovery σ S ρ) :
    ∃ network inFlight history, nodes.foldl s.ask d = { d with network, inFlight, history } := by
  induction nodes generalizing d with
  | nil => exact ⟨_, _, _, rfl⟩
  | cons node nodes ih =>
    obtain ⟨network, inFlight, history, hrest⟩ := ih (s.ask d node)
    refine ⟨network, inFlight, history, hrest.trans ?_⟩
    cases hover : s.lifetime.isOver d.now with
    | true => rw [ask_of_isOver hover]
    | false => rw [ask_of_lasting hover]

@[simp] theorem now_foldl_ask (nodes : List Node) : (nodes.foldl s.ask d).now = d.now := by
  obtain ⟨_, _, _, hasked⟩ := exists_foldl_ask s nodes d
  rw [hasked]

@[simp] theorem engine_foldl_ask (nodes : List Node) : (nodes.foldl s.ask d).engine = d.engine := by
  obtain ⟨_, _, _, hasked⟩ := exists_foldl_ask s nodes d
  rw [hasked]

@[simp] theorem ended_foldl_ask (nodes : List Node) : (nodes.foldl s.ask d).ended = d.ended := by
  obtain ⟨_, _, _, hasked⟩ := exists_foldl_ask s nodes d
  rw [hasked]

@[simp] theorem offered_foldl_ask (nodes : List Node) : (nodes.foldl s.ask d).offered = d.offered := by
  obtain ⟨_, _, _, hasked⟩ := exists_foldl_ask s nodes d
  rw [hasked]

@[simp] theorem seeded_foldl_ask (nodes : List Node) : (nodes.foldl s.ask d).seeded = d.seeded := by
  obtain ⟨_, _, _, hasked⟩ := exists_foldl_ask s nodes d
  rw [hasked]

@[simp] theorem stopped_foldl_ask (nodes : List Node) : (nodes.foldl s.ask d).stopped = d.stopped := by
  obtain ⟨_, _, _, hasked⟩ := exists_foldl_ask s nodes d
  rw [hasked]

@[simp] theorem reader_foldl_ask (nodes : List Node) : (nodes.foldl s.ask d).reader = d.reader := by
  obtain ⟨_, _, _, hasked⟩ := exists_foldl_ask s nodes d
  rw [hasked]

@[simp] theorem now_advance : (s.advance d).now = d.now := by simp [advance]

/-- A discovery at an instant at which its call lasts, with its engine at work. -/
structure Running (s : Search σ S) (d : Discovery σ S ρ) : Prop where
  lasting : s.lifetime.isOver d.now = false
  seeded : d.seeded = true
  stopped : d.stopped = false
  atEndLate : d.atEndLate = false

/-- No move is possible exactly if nothing is on offer and the engine not at its end, every query that
    is over was reported, and no query ends at this instant. -/
theorem Running.moves_eq_nil_iff (hrunning : s.Running d) :
    s.moves d = [] ↔ (d.offered = [] ∧ d.atEnd = false) ∧ d.ended = [] ∧
      ∀ flight ∈ d.inFlight, flight.due ≠ d.now := by
  simp only [moves, readerMoves, engineMoves, queryMoves, supervisorMoves, hrunning.seeded, hrunning.stopped,
    hrunning.atEndLate, Lifetime.poll?_of_isOver_eq_false hrunning.lasting, Bool.false_eq_true, if_false, if_true,
    Bool.or_false, List.nil_append, List.append_nil]
  rw [List.append_eq_nil_iff, List.append_eq_nil_iff, List.map_eq_nil_iff, List.map_eq_nil_iff, and_assoc]
  refine and_congr ?_ (and_congr ?_ ?_)
  · cases d.offered <;> simp
  · cases d.ended <;> simp [picks]
  · rw [List.filter_eq_nil_iff]
    constructor
    · intro hnone flight hflight hdue
      obtain ⟨others, hpick⟩ := exists_mem_picks hflight
      exact hnone _ hpick (decide_eq_true hdue)
    · rintro hnone ⟨flight, others⟩ hpick hdue
      have hmem : flight ∈ d.inFlight := (perm_of_mem_picks hpick).mem_iff.2 (List.mem_cons_self ..)
      exact hnone flight hmem (of_decide_eq_true hdue)

/-- What a step leads to while the call lasts. Time passes only once nothing is on offer and every query that is over
    was reported. -/
inductive Step (s : Search σ S) (read : Reader ρ) (d : Discovery σ S ρ) : Progress σ S ρ → Prop
  | reading {offer : Offer} {rest : List Offer} {reader : ρ} (hoffered : d.offered = offer :: rest)
    (hread : read d.reader offer.item = .reading reader) :
    Step s read d
      (.going { take offer { d with offered := rest, moved := d.moved + 1 } with reader })
  | resolved {offer : Offer} {rest : List Offer} {item : Item} (hoffered : d.offered = offer :: rest)
    (hread : read d.reader offer.item = .resolved item) :
    Step s read d (.ended (.resolved item) (take offer { d with offered := rest, moved := d.moved + 1 }))
  | reported {flight : Flight} {rest : List Flight} (hended : d.ended.Perm (flight :: rest)) :
    Step s read d (.going (s.resume flight { d with ended := rest, moved := d.moved + 1 }))
  | landed {flight : Flight} {rest : List Flight} (hflying : d.inFlight.Perm (flight :: rest))
    (hdue : flight.due = d.now) :
    Step s read d (.going (s.land flight { d with inFlight := rest, moved := d.moved + 1 }))
  | passed {due : Instant} (hoffered : d.offered = []) (hended : d.ended = [])
    (hnone : ∀ flight ∈ d.inFlight, flight.due ≠ d.now) (hsome : ∃ flight ∈ d.inFlight, flight.due = due)
    (hfirst : ∀ flight ∈ d.inFlight, due ≤ flight.due) (hlasting : s.lifetime.isOver due = false) :
    Step s read d (.going { d with now := due })
  | exhausted (hoffered : d.offered = []) (hatEnd : d.atEnd = true) :
    Step s read d (.ended (.exhausted d.reader) { d with moved := d.moved + 1 })
  | endless (hoffered : d.offered = []) (hended : d.ended = []) (hflying : d.inFlight = [])
    (hatEnd : d.atEnd = false) (hends : s.lifetime.endsAt? = none) :
    Step s read d (.ended .endless d)

/-- Nobody can do anything before the lifetime is over. -/
structure Waits (s : Search σ S) (d : Discovery σ S ρ) (limit : Instant) : Prop where
  ends : s.lifetime.endsAt? = some limit
  later : d.now < limit
  offered : d.offered = []
  ended : d.ended = []
  atEnd : d.atEnd = false
  none : ∀ flight ∈ d.inFlight, flight.due ≠ d.now
  late : ∀ flight ∈ d.inFlight, limit ≤ flight.due

theorem Waits.isOver {limit : Instant} (hwaits : s.Waits d limit) : s.lifetime.isOver limit = true :=
  Lifetime.isOver_iff.2 ⟨limit, hwaits.ends, Nat.le_refl _⟩

namespace Running

theorem advance (hlasting : s.lifetime.isOver d.now = false) (hseeded : d.seeded = true)
    (hstopped : d.stopped = false) : s.Running (s.advance d) where
  lasting := by rw [now_advance, hlasting]
  seeded := by simp [Search.advance, hseeded]
  stopped := by simp [Search.advance, hstopped]
  atEndLate := by simp [Search.advance, hlasting]

theorem step (hrunning : s.Running d) (hstep : s.Step read d (.going next)) : s.Running next := by
  obtain ⟨hlasting, hseeded, hstopped, hlate⟩ := hrunning
  cases hstep with
  | reading _ _ | landed _ _ => exact ⟨hlasting, hseeded, hstopped, hlate⟩
  | reported _ => exact advance hlasting hseeded hstopped
  | passed _ _ _ _ _ hlasting => exact ⟨hlasting, hseeded, hstopped, hlate⟩

theorem step_of_pass (hrunning : s.Running d) (hoffered : d.offered = []) (hatEnd : d.atEnd = false)
    (hended : d.ended = []) (hnone : ∀ flight ∈ d.inFlight, flight.due ≠ d.now) :
    s.Step read d (s.pass d) ∨ ∃ limit, s.Waits d limit ∧ s.pass d = .going { d with now := limit } := by
  unfold pass
  split
  · next time hwakes =>
    obtain ⟨hmem, hle⟩ := List.min?_eq_some_iff.1 hwakes
    have hfirst : ∀ flight ∈ d.inFlight, time ≤ flight.due :=
      fun flight hflight => hle _ (List.mem_append_right _ (List.mem_map_of_mem hflight))
    cases hover : s.lifetime.isOver time with
    | true =>
      obtain ⟨limit, hends, hlimit⟩ := Lifetime.isOver_iff.1 hover
      obtain rfl : time = limit :=
        Nat.le_antisymm (hle _ (List.mem_append_left _ (by simp [hends]))) hlimit
      have hlater := (Lifetime.isOver_eq_false_iff_lt hends).1 hrunning.lasting
      exact .inr ⟨time, ⟨hends, hlater, hoffered, hended, hatEnd, hnone, hfirst⟩, rfl⟩
    | false =>
      obtain hends | hdue := List.mem_append.1 hmem
      · have hlimit := (Lifetime.isOver_eq_false_iff_lt (Option.mem_toList.1 hends)).1 hover
        exact absurd hlimit (Nat.lt_irrefl time)
      · exact .inl (.passed hoffered hended hnone (List.mem_map.1 hdue) hfirst hover)
  · next hwakes =>
    obtain ⟨hends, hflying⟩ := List.append_eq_nil_iff.1 (List.min?_eq_none_iff.1 hwakes)
    exact .inl (.endless hoffered hended (List.map_eq_nil_iff.1 hflying) hatEnd (Option.toList_eq_nil_iff.1 hends))

theorem step_of_perform (hrunning : s.Running d) {move : Move} (hmove : move ∈ s.moves d) :
    s.Step read d (s.perform read { d with moved := d.moved + 1 } move) := by
  simp only [moves, readerMoves, engineMoves, queryMoves, supervisorMoves, hrunning.seeded, hrunning.stopped,
    hrunning.atEndLate, Lifetime.poll?_of_isOver_eq_false hrunning.lasting, Bool.false_eq_true, if_false, if_true,
    Bool.or_false, List.nil_append, List.append_nil] at hmove
  obtain hmove | hmove := List.mem_append.1 hmove
  · obtain hmove | hmove := List.mem_append.1 hmove
    · split at hmove
      · next offer rest hoffered =>
        obtain rfl := List.mem_singleton.1 hmove
        unfold perform
        dsimp only
        split
        · next hread => exact .resolved hoffered hread
        · next hread => exact .reading hoffered hread
      · next hoffered =>
        split at hmove
        · next hatEnd =>
          obtain rfl := List.mem_singleton.1 hmove
          exact .exhausted hoffered hatEnd
        · cases hmove
    · obtain ⟨⟨flight, rest⟩, hpick, rfl⟩ := List.mem_map.1 hmove
      exact .reported (perm_of_mem_picks hpick)
  · obtain ⟨⟨flight, rest⟩, hpick, rfl⟩ := List.mem_map.1 hmove
    obtain ⟨hpick, hdue⟩ := List.mem_filter.1 hpick
    exact .landed (perm_of_mem_picks hpick) (of_decide_eq_true hdue)

end Running

/-- The move on schedule is one of those possible; there is none only if none is possible. -/
theorem step_cases (s : Search σ S) (read : Reader ρ) (d : Discovery σ S ρ) :
    (∃ move ∈ s.moves d, s.step read d = s.perform read { d with moved := d.moved + 1 } move) ∨
      s.moves d = [] ∧ s.step read d = s.pass d := by
  unfold step
  split
  · next move hmove => exact .inl ⟨move, List.mem_of_getElem? hmove, rfl⟩
  · next hmove =>
    refine .inr ⟨?_, rfl⟩
    by_contra hsome
    have hlt := Nat.mod_lt (s.schedule d.moved) (List.length_pos_iff.2 hsome)
    rw [List.getElem?_eq_getElem hlt] at hmove
    cases hmove

theorem Running.step_spec (hrunning : s.Running d) (read : Reader ρ) :
    s.Step read d (s.step read d) ∨
      ∃ limit, s.Waits d limit ∧ s.step read d = .going { d with now := limit } := by
  obtain ⟨move, hmove, hstep⟩ | ⟨hmoves, hstep⟩ := s.step_cases read d
  · rw [hstep]
    exact .inl (hrunning.step_of_perform hmove)
  · rw [hstep]
    obtain ⟨⟨hoffered, hatEnd⟩, hended, hnone⟩ := hrunning.moves_eq_nil_iff.1 hmoves
    exact hrunning.step_of_pass hoffered hatEnd hended hnone

end Search

end DhtStore
