import DhtStore.Proofs.FanOut

namespace DhtStore

/-- The outcome of a write that is answered in time. -/
def WriteOutcome.ofAnswer : Except RequestError Unit → WriteOutcome
  | .ok () => stored
  | .error error => failed error

namespace FanOut

/-- How the task of a write behaves. -/
inductive Conduct
  /-- It ends with the answer of the network. -/
  | delivers (delivery : Delivery Unit)
  /-- It ends abnormally, without an outcome, some time after it began. -/
  | breaks (delay : Nat)

namespace Conduct

/-- How long after it began a task ends, and with which outcome if there is one, as far as it may take its time. -/
def ends? : Conduct → Option (Nat × Option WriteOutcome)
  | .delivers (.after delay answer) => some (delay, some (.ofAnswer answer))
  | .delivers .never => none
  | .breaks delay => some (delay, none)

/-- When and how a task ends that began at some instant. -/
def conclude (start timeout : Nat) (conduct : Conduct) : Instant × Option WriteOutcome :=
  match conduct.ends? with
  | some (delay, ending) =>
    if delay ≤ timeout then (start + delay, ending) else (start + timeout, some (.failed .timeout))
  | none => (start + timeout, some (.failed .timeout))

/-- What a task comes to that is polled: its end if that has come, and else a failure once the time for it is over. -/
def poll (start timeout now : Nat) (conduct : Conduct) : Option (Option WriteOutcome) :=
  let timedOut? := if start + timeout ≤ now then some (some (.failed .timeout)) else none
  match conduct.ends? with
  | some (delay, ending) => if start + delay ≤ now then some ending else timedOut?
  | none => timedOut?

variable {start timeout now : Nat} {conduct : Conduct} {ending : Option WriteOutcome}

/-- A task that ends by the timeout ends in its own way, and for one that goes on the write has failed then. -/
theorem conclude_cases (start timeout : Nat) (conduct : Conduct) :
    (∃ delay ending, conduct.ends? = some (delay, ending) ∧ delay ≤ timeout ∧
      conduct.conclude start timeout = (start + delay, ending)) ∨
    (∀ delay ending, conduct.ends? = some (delay, ending) → timeout < delay) ∧
      conduct.conclude start timeout = (start + timeout, some (.failed .timeout)) := by
  unfold conclude
  cases hends : conduct.ends? with
  | none => exact .inr ⟨nofun, rfl⟩
  | some found =>
    obtain ⟨delay, ending⟩ := found
    by_cases hdelay : delay ≤ timeout
    · exact .inl ⟨delay, ending, rfl, hdelay, if_pos hdelay⟩
    · refine .inr ⟨?_, if_neg hdelay⟩
      rintro _ _ ⟨⟩
      exact Nat.lt_of_not_le hdelay

theorem le_conclude (conduct : Conduct) : start ≤ (conduct.conclude start timeout).1 := by
  obtain ⟨delay, ending, -, -, hconclude⟩ | ⟨-, hconclude⟩ := conduct.conclude_cases start timeout
  all_goals
    rw [hconclude]
    exact Nat.le_add_right ..

theorem conclude_le (conduct : Conduct) : (conduct.conclude start timeout).1 ≤ start + timeout := by
  obtain ⟨delay, ending, -, hdelay, hconclude⟩ | ⟨-, hconclude⟩ := conduct.conclude_cases start timeout
  · rw [hconclude]
    exact Nat.add_le_add_left hdelay start
  · exact Nat.le_of_eq (congrArg Prod.fst hconclude)

/-- A task is pending until it is due. -/
theorem poll_eq_none_iff : conduct.poll start timeout now = none ↔ now < (conduct.conclude start timeout).1 := by
  obtain ⟨delay, ending, hends, hdelay, hconclude⟩ | ⟨hpending, hconclude⟩ := conduct.conclude_cases start timeout
  · rw [hconclude]
    have hlater : start + delay ≤ start + timeout := Nat.add_le_add_left hdelay start
    by_cases hcome : start + delay ≤ now
    · simp [poll, hends, hcome]
    · have hearly : ¬ start + timeout ≤ now := fun hover => hcome (Nat.le_trans hlater hover)
      simp [poll, hends, hcome, hearly, Nat.lt_of_not_le hcome]
  · rw [hconclude]
    cases hends : conduct.ends? with
    | none => simp [poll, hends]
    | some found =>
      obtain ⟨delay, ending⟩ := found
      have hlater : start + timeout < start + delay := Nat.add_lt_add_left (hpending delay ending hends) start
      by_cases hover : start + timeout ≤ now
      · by_cases hcome : start + delay ≤ now <;> simp [poll, hends, hcome, hover]
      · have hearly : ¬ start + delay ≤ now := fun hcome => hover (Nat.le_trans (Nat.le_of_lt hlater) hcome)
        simp [poll, hends, hearly, hover, Nat.lt_of_not_le hover]

/-- A task that is polled when it is due has ended as it is due to end. -/
theorem poll_due (start timeout : Nat) (conduct : Conduct) :
    conduct.poll start timeout (conduct.conclude start timeout).1 = some (conduct.conclude start timeout).2 := by
  obtain ⟨delay, ending, hends, -, hconclude⟩ | ⟨hpending, hconclude⟩ := conduct.conclude_cases start timeout
  · rw [hconclude]
    simp [poll, hends]
  · rw [hconclude]
    cases hends : conduct.ends? with
    | none => simp [poll, hends]
    | some found =>
      obtain ⟨delay, ending⟩ := found
      have hlater : timeout < delay := hpending delay ending hends
      simp [poll, hends, Nat.not_le.2 hlater]

/-- A task that has ended and was polled no later than it is due was polled just then. -/
theorem conclude_of_poll (hdue : now ≤ (conduct.conclude start timeout).1)
    (hpoll : conduct.poll start timeout now = some ending) :
    conduct.conclude start timeout = (now, ending) := by
  obtain hearly | rfl := Nat.lt_or_eq_of_le hdue
  · cases (poll_eq_none_iff.2 hearly).symm.trans hpoll
  · exact Prod.ext rfl (Option.some_inj.1 ((poll_due start timeout conduct).symm.trans hpoll))

end Conduct

/-- A node with the conduct of the write to it; there is none to a node without a token. -/
structure Posting where
  node : Node
  conduct : Option Conduct

/-- A write that ends abnormally leaves its slot as it was. -/
def Posting.slot (start timeout : Nat) (p : Posting) : Slot :=
  ⟨p.node, p.conduct.map fun conduct =>
    let ended := conduct.conclude start timeout
    (ended.1, ended.2.getD .interrupted)⟩

section

variable {σ : Type} {transport : Transport σ} {timeout : Nat} {now : Instant}

end

section

variable {start timeout : Nat} {now : Instant} {conduct : Conduct} {lifetime : Lifetime}

theorem outcome_slot (lifetime : Lifetime) (node : Node) (conduct : Conduct) :
    ((⟨node, some conduct⟩ : Posting).slot start timeout).outcome lifetime =
      if lifetime.isOver (conduct.conclude start timeout).1 then .interrupted
      else (conduct.conclude start timeout).2.getD .interrupted := rfl

end

variable {σ : Type}

end FanOut

end DhtStore
