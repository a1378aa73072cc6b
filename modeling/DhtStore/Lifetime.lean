namespace DhtStore

/-- Whole milliseconds since the clock started, the instants at which timers go off. On a finer clock the
    timer for an instant in between goes off at the next of them, while a look at the clock is exact. There
    is no last instant, so that no timeout is too long to be added to one. -/
abbrev Instant := Nat

inductive Interruption
  | canceled
  | deadlineExceeded
deriving DecidableEq

/-- The instants at which a call is cancelled and at which its deadline is, if there are such. -/
structure Lifetime where
  cancelAt : Option Instant := none
  deadline : Option Instant := none
deriving DecidableEq

namespace Lifetime

/-- The reason why a call is over at an instant. -/
def interruption? (l : Lifetime) (now : Instant) : Option Interruption :=
  if l.cancelAt.any (· ≤ now) then some .canceled
  else if l.deadline.any (· ≤ now) then some .deadlineExceeded
  else none

/-- What somebody finds at an instant who waits for a call to be over: first the cancellation, then the timer,
    of which there is one only if there is a deadline. -/
def poll? (l : Lifetime) (now : Instant) : Option Interruption :=
  let canceled? : Option Interruption := if l.cancelAt.any (· ≤ now) then some .canceled else none
  match l.deadline with
  | some deadline => canceled?.or (if deadline ≤ now then some .deadlineExceeded else none)
  | none => canceled?

/-- Who waits for the end of a call is told the reason for which it is over. -/
@[simp] theorem poll?_eq_interruption? (l : Lifetime) (now : Instant) : l.poll? now = l.interruption? now := by
  obtain ⟨cancelAt, deadline⟩ := l
  unfold poll? interruption?
  cases deadline <;> by_cases hcancel : cancelAt.any (· ≤ now) = true <;> simp [hcancel]

def isOver (l : Lifetime) (now : Instant) : Bool :=
  (l.interruption? now).isSome

theorem poll?_of_isOver_eq_false {l : Lifetime} {now : Instant} (hlasting : l.isOver now = false) :
    l.poll? now = none := by
  simpa [isOver] using hlasting

theorem exists_poll?_of_isOver {l : Lifetime} {now : Instant} (hover : l.isOver now = true) :
    ∃ reason, l.poll? now = some reason := by
  simpa [isOver, Option.isSome_iff_exists] using hover

@[simp] theorem isOver_empty {now : Instant} : ({} : Lifetime).isOver now = false := rfl

/-- The first instant at which a call is over. -/
def endsAt? (l : Lifetime) : Option Instant :=
  match l.cancelAt, l.deadline with
  | some c, some d => some (min c d)
  | some c, none => some c
  | none, deadline => deadline

/-- A call is over from its first such instant on. -/
theorem isOver_iff {l : Lifetime} {now : Instant} :
    l.isOver now = true ↔ ∃ last, l.endsAt? = some last ∧ last ≤ now := by
  obtain ⟨cancelAt, deadline⟩ := l
  cases cancelAt with
  | none => cases deadline <;> simp [isOver, interruption?, endsAt?]
  | some c =>
    cases deadline with
    | none => by_cases hc : c ≤ now <;> simp [isOver, interruption?, endsAt?, hc]
    | some d =>
      have hmin : min c d ≤ now ↔ c ≤ now ∨ d ≤ now := Std.min_le
      by_cases hc : c ≤ now <;> by_cases hd : d ≤ now <;>
        simp [isOver, interruption?, endsAt?, hmin, hc, hd]

/-- A call lasts before its first such instant. -/
theorem isOver_eq_false_iff_lt {l : Lifetime} {now last : Instant} (hends : l.endsAt? = some last) :
    l.isOver now = false ↔ now < last := by
  rw [Bool.eq_false_iff, Ne, isOver_iff, hends]
  simp

theorem isOver_eq_false_of_le {l : Lifetime} {now later : Instant} (hle : now ≤ later)
    (hlasting : l.isOver later = false) : l.isOver now = false := by
  cases hends : l.endsAt? with
  | none => simp [Bool.eq_false_iff, isOver_iff, hends]
  | some last =>
    rw [isOver_eq_false_iff_lt hends] at hlasting ⊢
    exact Nat.lt_of_le_of_lt hle hlasting

theorem interruption?_eq_canceled_iff {l : Lifetime} {now : Instant} :
    l.interruption? now = some .canceled ↔ ∃ cancel, l.cancelAt = some cancel ∧ cancel ≤ now := by
  obtain ⟨cancelAt, deadline⟩ := l
  cases cancelAt <;> cases deadline <;> simp [interruption?]

/-- A deadline is the reason only of a call that was not cancelled. -/
theorem interruption?_eq_deadlineExceeded_iff {l : Lifetime} {now : Instant} :
    l.interruption? now = some .deadlineExceeded ↔
      (∀ cancel, l.cancelAt = some cancel → now < cancel) ∧
        ∃ deadline, l.deadline = some deadline ∧ deadline ≤ now := by
  obtain ⟨cancelAt, deadline⟩ := l
  cases cancelAt with
  | none => cases deadline <;> simp [interruption?]
  | some c =>
    by_cases hc : c ≤ now
    · simp [interruption?, hc, Nat.not_lt.2 hc]
    · cases deadline <;> simp [interruption?, hc, Nat.lt_of_not_le hc]

theorem isOver_eq_false_iff {l : Lifetime} {now : Instant} :
    l.isOver now = false ↔ (∀ cancel, l.cancelAt = some cancel → now < cancel) ∧
      ∀ deadline, l.deadline = some deadline → now < deadline := by
  obtain ⟨cancelAt, deadline⟩ := l
  cases cancelAt with
  | none => cases deadline <;> simp [isOver, interruption?]
  | some c =>
    by_cases hc : c ≤ now
    · simp [isOver, interruption?, hc, Nat.not_lt.2 hc]
    · cases deadline <;> simp [isOver, interruption?, hc, Nat.lt_of_not_le hc]

/-- The instant from which on a reason can be given. -/
def instantOf? (l : Lifetime) : Interruption → Option Instant
  | .canceled => l.cancelAt
  | .deadlineExceeded => l.deadline

theorem exists_instantOf? {l : Lifetime} {now : Instant} {reason : Interruption}
    (hreason : l.interruption? now = some reason) :
    ∃ instant, l.instantOf? reason = some instant ∧ instant ≤ now := by
  cases reason with
  | canceled => exact interruption?_eq_canceled_iff.1 hreason
  | deadlineExceeded => exact (interruption?_eq_deadlineExceeded_iff.1 hreason).2

theorem le_of_endsAt? {l : Lifetime} {last instant : Instant} {reason : Interruption}
    (hends : l.endsAt? = some last) (hinstant : l.instantOf? reason = some instant) : last ≤ instant := by
  obtain ⟨cancelAt, deadline⟩ := l
  cases reason <;> cases hinstant
  · cases deadline <;> cases hends
    · exact Nat.le_refl _
    · exact Nat.min_le_left _ _
  · cases cancelAt <;> cases hends
    · exact Nat.le_refl _
    · exact Nat.min_le_right _ _

theorem exists_endsAt? {l : Lifetime} {instant : Instant} {reason : Interruption}
    (hinstant : l.instantOf? reason = some instant) : ∃ last, l.endsAt? = some last := by
  obtain ⟨cancelAt, deadline⟩ := l
  cases reason <;> cases hinstant
  · cases deadline <;> exact ⟨_, rfl⟩
  · cases cancelAt <;> exact ⟨_, rfl⟩

/-- The same call, to be cancelled at some instant too, if one is given. -/
def cancelledAt (l : Lifetime) (cancel : Option Instant) : Lifetime :=
  { l with cancelAt := Option.merge min l.cancelAt cancel }

@[simp] theorem cancelledAt_none (l : Lifetime) : l.cancelledAt none = l := by
  simp [cancelledAt]

theorem cancelledAt_right_comm (l : Lifetime) (cancel other : Option Instant) :
    (l.cancelledAt cancel).cancelledAt other = (l.cancelledAt other).cancelledAt cancel := by
  obtain ⟨cancelAt, deadline⟩ := l
  cases cancelAt <;> cases cancel <;> cases other <;>
    simp [cancelledAt, Nat.min_comm, Nat.min_left_comm]

theorem interruption?_cancelledAt {l : Lifetime} {cancel now : Instant} (hle : cancel ≤ now) :
    (l.cancelledAt (some cancel)).interruption? now = some .canceled := by
  obtain ⟨cancelAt, deadline⟩ := l
  refine interruption?_eq_canceled_iff.2 ?_
  cases cancelAt with
  | none => exact ⟨cancel, rfl, hle⟩
  | some c => exact ⟨min c cancel, rfl, Nat.le_trans (Nat.min_le_right _ _) hle⟩

theorem endsAt?_cancelledAt (l : Lifetime) (cancel : Instant) :
    (l.cancelledAt (some cancel)).endsAt? = some (l.endsAt?.elim cancel (min · cancel)) := by
  obtain ⟨cancelAt, deadline⟩ := l
  cases cancelAt <;> cases deadline <;> simp [cancelledAt, endsAt?, Nat.min_comm, Nat.min_left_comm]

theorem isOver_cancelledAt_eq_false_iff {l : Lifetime} {cancel now : Instant} :
    (l.cancelledAt (some cancel)).isOver now = false ↔ now < cancel ∧ l.isOver now = false := by
  rw [isOver_eq_false_iff_lt (l.endsAt?_cancelledAt cancel)]
  cases hends : l.endsAt? with
  | none => simp [Bool.eq_false_iff, isOver_iff, hends]
  | some last =>
    rw [isOver_eq_false_iff_lt hends, and_comm]
    exact Nat.lt_min

end Lifetime

end DhtStore
