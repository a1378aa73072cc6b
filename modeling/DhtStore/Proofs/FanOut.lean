import DhtStore.FanOut
import Mathlib.Data.List.Basic

namespace DhtStore

variable {σ : Type}

/-- What a call of `put` for a node that issued a token comes to: a write, or none if the call is over by then. -/
def Node.putOf (late : Bool) (now : Instant) (item : Item) (node : Node) : Option Event :=
  node.token.map fun token =>
    let request : PutRequest := ⟨token, item⟩
    if late then .unwritten now node.address request else .wrote now node.address request

namespace FanOut

variable {transport : Transport σ} {lifetime : Lifetime} {timeout : Nat} {nodes : List Node} {item : Item}
  {now : Instant} {network : σ}

theorem map_node_slots_send (tasks : List Task) (network : σ) :
    (send transport timeout now tasks network).slots.map Slot.node = tasks.map Task.node := by
  induction tasks generalizing network with
  | nil => rfl
  | cons task tasks ih =>
    obtain ⟨node, request⟩ := task
    cases request <;> simp [send, ih]

theorem history_send (tasks : List Task) (network : σ) :
    (send transport timeout now tasks network).history =
      tasks.filterMap fun task => task.request.map (.wrote now task.node.address ·) := by
  induction tasks generalizing network with
  | nil => rfl
  | cons task tasks ih =>
    obtain ⟨node, request⟩ := task
    cases request <;> simp [send, ih]

theorem begin_of_isOver (hover : lifetime.isOver now = true) :
    begin transport lifetime timeout nodes item now network = abort now (spawn item nodes) network := by
  obtain ⟨reason, hreason⟩ := Option.isSome_iff_exists.1 hover
  simp [begin, hreason]

theorem begin_of_lasting (hlasting : lifetime.isOver now = false) :
    begin transport lifetime timeout nodes item now network =
      send transport timeout now (spawn item nodes) network := by
  have hnone : lifetime.interruption? now = none := by simpa [Lifetime.isOver] using hlasting
  simp [begin, hnone]

theorem map_node_slots_begin :
    (begin transport lifetime timeout nodes item now network).slots.map Slot.node = nodes := by
  cases hover : lifetime.isOver now with
  | true => simp [begin_of_isOver hover, abort, spawn, Function.comp_def]
  | false => simp [begin_of_lasting hover, map_node_slots_send, spawn, Function.comp_def]

/-- However a fan-out goes on, `put` is called once for each node that issued a token. -/
theorem history_begin :
    (begin transport lifetime timeout nodes item now network).history =
      nodes.filterMap (Node.putOf (lifetime.isOver now) now item) := by
  cases hover : lifetime.isOver now with
  | true =>
    simp only [begin_of_isOver hover, abort, spawn, List.filterMap_map, Function.comp_def, Option.map_map]
    rfl
  | false =>
    simp only [begin_of_lasting hover, history_send, spawn, List.filterMap_map, Function.comp_def, Option.map_map]
    rfl

/-- The instants at which writes are over. -/
def dues (slots : List Slot) : List Instant := slots.filterMap fun slot => slot.due.map Prod.fst

theorem finish_le_iff {slots : List Slot} {limit : Instant} :
    finish now slots ≤ limit ↔ now ≤ limit ∧ ∀ due ∈ dues slots, due ≤ limit := by
  unfold finish
  change (dues slots).foldl max now ≤ limit ↔ _
  generalize dues slots = dues
  induction dues generalizing now with
  | nil => simp
  | cons due dues ih => rw [List.foldl_cons, ih, Nat.max_le, List.forall_mem_cons, and_assoc]

theorem le_finish (slots : List Slot) : now ≤ finish now slots :=
  (finish_le_iff.1 (Nat.le_refl _)).1

theorem conclude_le {start : Instant} (delivery : Delivery Unit) :
    (conclude start timeout delivery).1 ≤ start + timeout := by
  unfold conclude
  split
  · exact Nat.le_refl _
  · next delay answer =>
    split
    · exact Nat.le_refl _
    · next hearly =>
      have hdelay : delay ≤ timeout := Nat.not_lt.1 hearly
      split <;> exact Nat.add_le_add_left hdelay start

theorem due_send_le (tasks : List Task) (network : σ) :
    ∀ due ∈ dues (send transport timeout now tasks network).slots, due ≤ now + timeout := by
  induction tasks generalizing network with
  | nil => exact fun due hdue => absurd hdue List.not_mem_nil
  | cons task tasks ih =>
    obtain ⟨node, request⟩ := task
    cases request with
    | none => exact ih network
    | some request => exact List.forall_mem_cons.2 ⟨conclude_le _, ih _⟩

theorem due_begin_le :
    ∀ due ∈ dues (begin transport lifetime timeout nodes item now network).slots, due ≤ now + timeout := by
  cases hover : lifetime.isOver now with
  | true => simp [begin_of_isOver hover, abort, dues]
  | false =>
    rw [begin_of_lasting hover]
    exact due_send_le _ _

end FanOut

variable {transport : Transport σ} {lifetime : Lifetime} {timeout : Nat} {nodes : List Node} {item : Item}
  {now : Instant} {network : σ}

/-- Every node has one outcome, whatever that is. -/
theorem map_node_writes_fanOut :
    (fanOut transport lifetime timeout nodes item now network).writes.map Write.node = nodes :=
  (List.map_map ..).trans FanOut.map_node_slots_begin

/-- A fan-out calls `put` with its item, and with its own token, for each node that has one. It sends nothing at all
    if its lifetime is over as it begins. -/
theorem history_fanOut :
    (fanOut transport lifetime timeout nodes item now network).history =
      nodes.filterMap (Node.putOf (lifetime.isOver now) now item) := FanOut.history_begin

/-- All that a fan-out does is to call `put` with its item. -/
theorem exists_node_of_mem_history_fanOut {event : Event}
    (hmem : event ∈ (fanOut transport lifetime timeout nodes item now network).history) :
    ∃ node ∈ nodes, ∃ token, node.token = some token ∧
      event = if lifetime.isOver now then .unwritten now node.address ⟨token, item⟩
        else .wrote now node.address ⟨token, item⟩ := by
  rw [history_fanOut] at hmem
  obtain ⟨node, hnode, hput⟩ := List.mem_filterMap.1 hmem
  obtain ⟨token, htoken, rfl⟩ := Option.map_eq_some_iff.1 hput
  exact ⟨node, hnode, token, htoken, rfl⟩

/-- In writing nothing is asked. -/
theorem gets_fanOut : (fanOut transport lifetime timeout nodes item now network).history.gets = [] := by
  refine List.filterMap_eq_nil_iff.2 fun event hevent => ?_
  obtain ⟨node, -, token, -, rfl⟩ := exists_node_of_mem_history_fanOut hevent
  split <;> rfl

/-- A fan-out ends with its last write, or at the first instant at which its lifetime is over. -/
theorem finished_eq :
    (fanOut transport lifetime timeout nodes item now network).finished =
      let finish := FanOut.finish now (FanOut.begin transport lifetime timeout nodes item now network).slots
      lifetime.endsAt?.elim finish fun last => min finish (max now last) := by
  unfold fanOut
  cases lifetime.endsAt? <;> rfl

theorem le_finished : now ≤ (fanOut transport lifetime timeout nodes item now network).finished := by
  rw [finished_eq]
  cases lifetime.endsAt? with
  | none => exact FanOut.le_finish _
  | some last => exact Nat.le_min.2 ⟨FanOut.le_finish _, Nat.le_max_left now last⟩

theorem finished_of_isOver (hover : lifetime.isOver now = true) :
    (fanOut transport lifetime timeout nodes item now network).finished = now := by
  refine Nat.le_antisymm ?_ le_finished
  obtain ⟨last, hends, hlast⟩ := Lifetime.isOver_iff.1 hover
  rw [finished_eq, hends]
  exact Nat.le_trans (Nat.min_le_right ..) (Nat.le_of_eq (Nat.max_eq_left hlast))

theorem finished_of_lasting (hlasting : lifetime.isOver now = false) :
    (fanOut transport lifetime timeout nodes item now network).finished =
      let finish := FanOut.finish now (FanOut.send transport timeout now (FanOut.spawn item nodes) network).slots
      lifetime.endsAt?.elim finish (min finish) := by
  rw [finished_eq, FanOut.begin_of_lasting hlasting]
  cases hends : lifetime.endsAt? with
  | none => rfl
  | some last =>
    have hlater : now ≤ last := Nat.le_of_lt ((Lifetime.isOver_eq_false_iff_lt hends).1 hlasting)
    exact congrArg (min _) (Nat.max_eq_right hlater)

/-- A fan-out takes no longer than one write may. -/
theorem finished_le :
    (fanOut transport lifetime timeout nodes item now network).finished ≤ now + timeout := by
  have hfinish : FanOut.finish now (FanOut.begin transport lifetime timeout nodes item now network).slots ≤
      now + timeout := FanOut.finish_le_iff.2 ⟨Nat.le_add_right .., FanOut.due_begin_le⟩
  rw [finished_eq]
  cases lifetime.endsAt? with
  | none => exact hfinish
  | some last => exact Nat.le_trans (Nat.min_le_left ..) hfinish

/-- A fan-out with a deadline ends no later. -/
theorem finished_le_of_deadline {deadline : Instant} (hdeadline : lifetime.deadline = some deadline) :
    (fanOut transport lifetime timeout nodes item now network).finished ≤ max now deadline := by
  have hinstant : lifetime.instantOf? .deadlineExceeded = some deadline := hdeadline
  obtain ⟨last, hends⟩ := Lifetime.exists_endsAt? hinstant
  have hlast : last ≤ max now deadline :=
    Nat.le_trans (Lifetime.le_of_endsAt? hends hinstant) (Nat.le_max_right now deadline)
  rw [finished_eq, hends]
  exact Nat.le_trans (Nat.min_le_right ..) (Nat.max_le.2 ⟨Nat.le_max_left now deadline, hlast⟩)

/-- A fan-out that would last until some later instant is over there if it is cancelled. -/
theorem finished_cancelledAt {cancel : Instant} (hlater : now < cancel)
    (hlong : cancel ≤ (fanOut transport lifetime timeout nodes item now network).finished) :
    (fanOut transport (lifetime.cancelledAt (some cancel)) timeout nodes item now network).finished =
      cancel := by
  have hlasting : lifetime.isOver now = false := by
    by_contra hover
    rw [finished_of_isOver (Bool.of_not_eq_false hover)] at hlong
    exact Nat.not_lt.2 hlong hlater
  have hboth : (lifetime.cancelledAt (some cancel)).isOver now = false :=
    Lifetime.isOver_cancelledAt_eq_false_iff.2 ⟨hlater, hlasting⟩
  rw [finished_of_lasting hlasting] at hlong
  rw [finished_of_lasting hboth, Lifetime.endsAt?_cancelledAt]
  cases hends : lifetime.endsAt? with
  | none =>
    rw [hends] at hlong
    exact Nat.min_eq_right hlong
  | some last =>
    rw [hends] at hlong
    obtain ⟨hfinish, hlast⟩ := Nat.le_min.1 hlong
    exact (congrArg _ (Nat.min_eq_right hlast)).trans (Nat.min_eq_right hfinish)

end DhtStore
