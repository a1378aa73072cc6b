import DhtStore.Context
import Mathlib.Data.List.Basic

namespace DhtStore

/-- The time that passes in an operation. -/
def ContextOp.span : ContextOp → Nat
  | .advance ms => ms
  | _ => 0

namespace ContextPool

/-- The contexts at each instant of some time in which nothing is done with them. -/
def moments (p : ContextPool) (span : Nat) : List ContextPool :=
  (List.range (span + 1)).map fun ms => { p with now := p.now + ms }

/-- The contexts at each instant of some operations, and once more after each operation. -/
def stages (p : ContextPool) : List ContextOp → List ContextPool
  | [] => [p]
  | op :: ops => p.moments op.span ++ (p.apply op).stages ops

/-- The reason why a context is over, with the instant. -/
def reading (c : Context) (p : ContextPool) : Option (Interruption × Instant) :=
  (p.error? c).map (·, p.now)

variable {p q : ContextPool} {c : Context}

theorem error?_eq :
    p.error? c = if c.token.isCancelled p.cancelled then some .canceled
      else if c.deadline.any (· ≤ p.now) then some .deadlineExceeded else none := by
  unfold error?
  cases c.deadline <;> simp

theorem error?_isSome_iff :
    (p.error? c).isSome ↔ c.token.isCancelled p.cancelled = true ∨
      ∃ deadline, c.deadline = some deadline ∧ deadline ≤ p.now := by
  rw [error?_eq]
  cases c.token.isCancelled p.cancelled <;> cases c.deadline <;> simp

/-- A call that is made with a context is over when the context is, and for the same reason. -/
theorem interruption?_lifetime : (p.lifetime c).interruption? p.now = p.error? c := by
  rw [error?_eq]
  unfold lifetime Lifetime.interruption?
  cases c.token.isCancelled p.cancelled <;> simp

theorem moments_succ (span : Nat) :
    p.moments (span + 1) = p :: ({ p with now := p.now + 1 } : ContextPool).moments span := by
  rw [moments, moments, List.range_succ_eq_map, List.map_cons, List.map_map]
  exact congrArg (p :: ·) (List.map_congr_left fun ms _ =>
    congrArg (fun now => { p with now }) (Nat.add_right_comm p.now ms 1))

theorem stages_eq_cons (p : ContextPool) (ops : List ContextOp) : ∃ later, p.stages ops = p :: later := by
  cases ops with
  | nil => exact ⟨[], rfl⟩
  | cons op ops =>
    cases hspan : op.span with
    | zero => exact ⟨(p.apply op).stages ops, by simp [stages, hspan, moments]⟩
    | succ ms => exact ⟨_, by rw [stages, hspan, moments_succ, List.cons_append]⟩

/-- A context that is neither cancelled nor past its deadline gives no reason. -/
theorem findSome?_moments_of_lasting {span : Nat} (hcancelled : c.token.isCancelled p.cancelled = false)
    (hlater : ∀ deadline, c.deadline = some deadline → p.now + span < deadline) :
    (p.moments span).findSome? (reading c) = none := by
  refine List.findSome?_eq_none_iff.2 fun q hq => ?_
  obtain ⟨ms, hms, rfl⟩ := List.mem_map.1 hq
  have hspan : p.now + ms ≤ p.now + span := Nat.add_le_add_left (Nat.lt_succ_iff.1 (List.mem_range.1 hms)) _
  refine Option.map_eq_none_iff.2 (Option.eq_none_iff_forall_ne_some.2 fun reason hreason => ?_)
  obtain hcancel | ⟨deadline, hdeadline, hle⟩ := error?_isSome_iff.1 (Option.isSome_of_eq_some hreason)
  · cases hcancelled.symm.trans hcancel
  · exact Nat.not_lt.2 (Nat.le_trans hle hspan) (hlater deadline hdeadline)

/-- Of a context that is not cancelled the deadline is the first instant at which it is over. -/
theorem findSome?_moments_of_deadline {span : Nat} {deadline : Instant}
    (hcancelled : c.token.isCancelled p.cancelled = false) (hdeadline : c.deadline = some deadline)
    (hlater : p.now ≤ deadline) (hspan : deadline ≤ p.now + span) :
    (p.moments span).findSome? (reading c) = some (.deadlineExceeded, deadline) := by
  induction span generalizing p with
  | zero =>
    obtain rfl : p.now = deadline := Nat.le_antisymm hlater hspan
    simp [moments, reading, error?, hcancelled, hdeadline]
  | succ span ih =>
    rw [moments_succ, List.findSome?_cons]
    obtain rfl | hearly := Nat.eq_or_lt_of_le hlater
    · simp [reading, error?, hcancelled, hdeadline]
    · have hnow : reading c p = none := by
        simp [reading, error?, hcancelled, hdeadline, Nat.not_le.2 hearly]
      rw [hnow]
      exact ih (p := { p with now := p.now + 1 }) hcancelled hearly
        (Nat.le_trans hspan (Nat.le_of_eq (Nat.add_right_comm p.now span 1)))

theorem now_derive (slot : Nat) (f : Context → Context) : (p.derive slot f).now = p.now := by
  unfold derive
  split <;> rfl

theorem cancelled_derive (slot : Nat) (f : Context → Context) :
    (p.derive slot f).cancelled = p.cancelled := by
  unfold derive
  split <;> rfl

theorem now_apply (op : ContextOp) : (p.apply op).now = p.now + op.span := by
  cases op with
  | clone slot | child slot | withTimeout slot | withDeadline slot | withCancellation slot =>
    exact now_derive slot _
  | fresh | advance => rfl
  | cancel slot => cases hslot : p.contexts[slot]? <;> simp [apply, hslot, ContextOp.span]

theorem cancelled_subset_apply (op : ContextOp) : p.cancelled ⊆ (p.apply op).cancelled := by
  cases op with
  | clone slot | child slot | withTimeout slot | withDeadline slot | withCancellation slot =>
    exact (cancelled_derive slot _).symm ▸ List.Subset.refl _
  | fresh | advance => exact List.Subset.refl _
  | cancel slot => cases hslot : p.contexts[slot]? <;> simp [apply, hslot]

/-- Time does not go back and no cancellation is undone. -/
structure Before (p q : ContextPool) : Prop where
  now_le : p.now ≤ q.now
  cancelled : p.cancelled ⊆ q.cancelled

namespace Before

theorem refl (p : ContextPool) : p.Before p := ⟨Nat.le_refl _, fun _ hmem => hmem⟩

theorem trans {r : ContextPool} (h : p.Before q) (h' : q.Before r) : p.Before r :=
  ⟨Nat.le_trans h.now_le h'.now_le, fun _ hmem => h'.cancelled (h.cancelled hmem)⟩

theorem apply (p : ContextPool) (op : ContextOp) : p.Before (p.apply op) :=
  ⟨now_apply op ▸ Nat.le_add_right .., cancelled_subset_apply op⟩

/-- An operation takes its time, and all instants of it are before its end. -/
theorem of_mem_moments {op : ContextOp} (hmem : q ∈ p.moments op.span) : q.Before (p.apply op) := by
  obtain ⟨ms, hms, rfl⟩ := List.mem_map.1 hmem
  have hle : ms ≤ op.span := Nat.lt_succ_iff.1 (List.mem_range.1 hms)
  exact ⟨now_apply op ▸ Nat.add_le_add_left hle _, cancelled_subset_apply (p := p) op⟩

theorem error?_isSome (h : p.Before q) (hover : (p.error? c).isSome) : (q.error? c).isSome := by
  rw [error?_isSome_iff] at hover ⊢
  rcases hover with hcancelled | ⟨deadline, hdeadline, hle⟩
  · left
    obtain ⟨token, hmem, htoken⟩ := List.any_eq_true.1 hcancelled
    exact List.any_eq_true.2
      ⟨token, hmem, List.contains_iff_mem.2 (h.cancelled (List.contains_iff_mem.1 htoken))⟩
  · exact .inr ⟨deadline, hdeadline, Nat.le_trans hle h.now_le⟩

end Before

theorem pairwise_moments (p : ContextPool) (span : Nat) : (p.moments span).Pairwise Before :=
  List.pairwise_map.2 ((List.pairwise_lt_range).imp fun hlt =>
    ⟨Nat.add_le_add_left (Nat.le_of_lt hlt) _, fun _ hmem => hmem⟩)

theorem before_of_mem_stages {ops : List ContextOp} (hmem : q ∈ p.stages ops) : p.Before q := by
  induction ops generalizing p with
  | nil =>
    cases List.mem_singleton.1 hmem
    exact .refl q
  | cons op ops ih =>
    rcases List.mem_append.1 hmem with hmem | hmem
    · obtain ⟨ms, -, rfl⟩ := List.mem_map.1 hmem
      exact ⟨Nat.le_add_right _ _, fun _ hmem => hmem⟩
    · exact (Before.apply p op).trans (ih hmem)

theorem pairwise_stages (ops : List ContextOp) : (p.stages ops).Pairwise Before := by
  induction ops generalizing p with
  | nil => exact List.pairwise_singleton _ _
  | cons op ops ih =>
    exact List.pairwise_append.2 ⟨pairwise_moments p _, ih, fun _ hq _ hr =>
      (Before.of_mem_moments hq).trans (before_of_mem_stages hr)⟩

end ContextPool

namespace ContextWait

open ContextPool

variable {w next : ContextWait}

/-- One of those who can do something does it; or a millisecond passes if nobody has anything to do. -/
inductive Moves (w : ContextWait) : ContextWait → Prop
  | polled (hwoken : w.woken = true) (hwaiting : w.resolved = none) : Moves w w.poll
  | expired (hdue : w.isDue = true) : Moves w w.expire
  /-- Someone else works with the contexts, which takes no time. -/
  | observed {op : ContextOp} (hspan : op.span = 0) : Moves w (w.observe op)
  | passed (hidle : w.woken = false ∨ w.resolved.isSome = true) (htimer : w.isDue = false) :
    Moves w (w.goTo (w.pool.now + 1))

/-- The waits for a context that began with some contexts, with the contexts at each moment so far. -/
inductive Course (c : Context) (p : ContextPool) : List ContextPool → ContextWait → Prop
  | begun : Course c p [p] { context := c, pool := p }
  | moved {pools : List ContextPool} {w next : ContextWait} (hcourse : Course c p pools w)
    (hmoves : Moves w next) : Course c p (pools ++ [next.pool]) next

variable {c : Context} {p : ContextPool} {pools : List ContextPool}

theorem isDue_iff : w.isDue = true ↔
    w.elapsed = false ∧ ∃ deadline, w.context.deadline = some deadline ∧ deadline ≤ w.pool.now := by
  unfold isDue
  cases w.context.deadline <;> simp

/-- A wait finds its token cancelled, or its timer elapsed, in this order. -/
theorem ready?_eq_some_iff {reason : Interruption} : w.ready? = some reason ↔
    w.context.token.isCancelled w.pool.cancelled = true ∧ reason = .canceled ∨
    w.context.token.isCancelled w.pool.cancelled = false ∧ w.context.deadline.isSome = true ∧
      w.elapsed = true ∧ reason = .deadlineExceeded := by
  unfold ready?
  cases w.context.deadline <;> cases w.context.token.isCancelled w.pool.cancelled <;> cases w.elapsed <;>
    simp [eq_comm]

/-- The timer does not go off early, and who is not to be polled would find nothing. -/
structure Sound (w : ContextWait) : Prop where
  elapsed : w.elapsed = true → ∃ deadline, w.context.deadline = some deadline ∧ deadline ≤ w.pool.now
  idle : w.woken = false → w.resolved = none → w.ready? = none

/-- Nobody has anything to do. -/
structure Quiet (w : ContextWait) : Prop where
  timer : w.isDue = false
  woken : w.woken = false ∨ w.resolved.isSome = true

namespace Sound

theorem begun (c : Context) (p : ContextPool) : Sound { context := c, pool := p } := ⟨nofun, nofun⟩

/-- Once the timer has gone off if it is to, a poll finds the reason why the context is over. -/
theorem ready?_eq_error? (hsound : w.Sound) (htimer : w.isDue = false) :
    w.ready? = w.pool.error? w.context := by
  rw [error?_eq]
  unfold ready?
  cases hdeadline : w.context.deadline with
  | none => simp
  | some deadline =>
    have helapsed : w.elapsed = decide (deadline ≤ w.pool.now) := by
      refine Bool.eq_iff_iff.2 ⟨fun helapsed => ?_, fun hreached => ?_⟩
      · obtain ⟨_, hsame, hreached⟩ := hsound.elapsed helapsed
        cases hdeadline.symm.trans hsame
        exact decide_eq_true hreached
      · -- A timer that has not gone off by its deadline would be due.
        by_contra hwaiting
        have hdue := isDue_iff.2 ⟨Bool.eq_false_iff.2 hwaiting, deadline, hdeadline, of_decide_eq_true hreached⟩
        cases htimer.symm.trans hdue
    rw [helapsed]
    cases w.context.token.isCancelled w.pool.cancelled <;> simp

/-- A poll finds nothing but the reason why the context is over, be it ahead of the timer. -/
theorem error?_of_ready? (hsound : w.Sound) {reason : Interruption} (hready : w.ready? = some reason) :
    w.pool.error? w.context = some reason := by
  rw [error?_eq]
  obtain ⟨hcancelled, rfl⟩ | ⟨hcancelled, -, helapsed, rfl⟩ := ready?_eq_some_iff.1 hready
  · simp [hcancelled]
  · obtain ⟨deadline, hdeadline, hreached⟩ := hsound.elapsed helapsed
    simp [hcancelled, hdeadline, hreached]

theorem error?_of_quiet (hsound : w.Sound) (hquiet : w.Quiet) (hwaiting : w.resolved = none) :
    w.pool.error? w.context = none := by
  have hidle : w.woken = false := hquiet.woken.resolve_right (by simp [hwaiting])
  rw [← hsound.ready?_eq_error? hquiet.timer]
  exact hsound.idle hidle hwaiting

theorem poll (hsound : w.Sound) : w.poll.Sound where
  elapsed := hsound.elapsed
  idle _ hwaiting := Option.map_eq_none_iff.1 hwaiting

theorem expire (hdue : w.isDue = true) : w.expire.Sound where
  elapsed _ := (isDue_iff.1 hdue).2
  idle := nofun

theorem goTo (hsound : w.Sound) {later : Instant} (hlater : w.pool.now ≤ later) : (w.goTo later).Sound where
  elapsed helapsed := by
    obtain ⟨deadline, hdeadline, hreached⟩ := hsound.elapsed helapsed
    exact ⟨deadline, hdeadline, Nat.le_trans hreached hlater⟩
  idle := hsound.idle

/-- Only a cancellation that concerns the wait makes a difference to it, and wakes it. -/
theorem observe (hsound : w.Sound) (op : ContextOp) : (w.observe op).Sound where
  elapsed helapsed := by
    obtain ⟨deadline, hdeadline, hreached⟩ := hsound.elapsed helapsed
    exact ⟨deadline, hdeadline, Nat.le_trans hreached (Before.apply w.pool op).now_le⟩
  idle hidle hwaiting := by
    obtain ⟨hasleep, hsame⟩ := Bool.or_eq_false_iff.1 hidle
    have hnothing := hsound.idle hasleep hwaiting
    refine Option.eq_none_iff_forall_ne_some.2 fun reason hready => ?_
    obtain ⟨hcancelled, rfl⟩ | ⟨-, hdeadline, helapsed, -⟩ := ready?_eq_some_iff.1 hready
    · have hbefore : w.context.token.isCancelled w.pool.cancelled = true := by
        have hnow : w.context.token.isCancelled (w.pool.apply op).cancelled = true := hcancelled
        simpa [hnow] using hsame
      cases hnothing.symm.trans (ready?_eq_some_iff.2 (.inl ⟨hbefore, rfl⟩))
    · cases hbefore : w.context.token.isCancelled w.pool.cancelled with
      | true => cases hnothing.symm.trans (ready?_eq_some_iff.2 (.inl ⟨hbefore, rfl⟩))
      | false =>
        cases hnothing.symm.trans (ready?_eq_some_iff.2 (.inr ⟨hbefore, hdeadline, helapsed, rfl⟩))

theorem moves (hsound : w.Sound) (hmoves : Moves w next) : next.Sound := by
  cases hmoves with
  | polled _ _ => exact hsound.poll
  | expired hdue => exact expire hdue
  | observed _ => exact hsound.observe _
  | passed _ _ => exact hsound.goTo (Nat.le_succ _)

end Sound

/-- What a wait has come to among the contexts of all moments so far: the first instant at which the context is
    over ends it. -/
structure Told (c : Context) (pools : List ContextPool) (w : ContextWait) : Prop where
  context : w.context = c
  sound : w.Sound
  here : w.pool ∈ pools
  before : ∀ q ∈ pools, q.Before w.pool
  waiting : w.resolved = none → ∀ q ∈ pools, q.now < w.pool.now → q.error? c = none
  resolved : ∀ reason time, w.resolved = some (reason, time) →
    (∃ q ∈ pools, q.now = time ∧ q.error? c = some reason) ∧ ∀ q ∈ pools, q.now < time → q.error? c = none

namespace Told

theorem begun (c : Context) (p : ContextPool) : Told c [p] { context := c, pool := p } where
  context := rfl
  sound := .begun c p
  here := List.mem_singleton_self p
  before q hq := List.mem_singleton.1 hq ▸ .refl p
  waiting _ q hq hearlier := by
    obtain rfl := List.mem_singleton.1 hq
    exact absurd hearlier (Nat.lt_irrefl _)
  resolved := nofun

/-- A poll that finds a reason finds that which the context gives at this moment. -/
theorem poll (htold : Told c pools w) (hwaiting : w.resolved = none) : Told c (pools ++ [w.pool]) w.poll where
  context := htold.context
  sound := htold.sound.poll
  here := List.mem_append_left _ htold.here
  before := List.forall_mem_append.2 ⟨htold.before, List.forall_mem_singleton.2 (.refl _)⟩
  waiting _ := List.forall_mem_append.2
    ⟨htold.waiting hwaiting, List.forall_mem_singleton.2 fun hearlier => absurd hearlier (Nat.lt_irrefl _)⟩
  resolved reason time hresolved := by
    obtain ⟨_, hready, hpair⟩ := Option.map_eq_some_iff.1 hresolved
    cases hpair
    have herror := htold.sound.error?_of_ready? hready
    rw [htold.context] at herror
    exact ⟨⟨_, List.mem_append_left _ htold.here, rfl, herror⟩, List.forall_mem_append.2
      ⟨htold.waiting hwaiting, List.forall_mem_singleton.2 fun hearlier => absurd hearlier (Nat.lt_irrefl _)⟩⟩

/-- What does not end the wait makes no difference to it, unless an instant passes at which the context is over. -/
theorem keep (htold : Told c pools w) (hcontext : next.context = w.context) (hsound : next.Sound)
    (hbefore : w.pool.Before next.pool) (hresolved : next.resolved = w.resolved)
    (hpassed : w.pool.now < next.pool.now → w.resolved = none → w.pool.error? c = none) :
    Told c (pools ++ [next.pool]) next where
  context := hcontext.trans htold.context
  sound := hsound
  here := List.mem_append_right _ (List.mem_singleton_self _)
  before := List.forall_mem_append.2
    ⟨fun q hq => (htold.before q hq).trans hbefore, List.forall_mem_singleton.2 (.refl _)⟩
  waiting hwaiting := by
    rw [hresolved] at hwaiting
    refine List.forall_mem_append.2
      ⟨fun q hq hearlier => ?_, List.forall_mem_singleton.2 fun hearlier => absurd hearlier (Nat.lt_irrefl _)⟩
    obtain hpast | hnow := Nat.lt_or_eq_of_le (htold.before q hq).now_le
    · exact htold.waiting hwaiting q hq hpast
    · by_contra hover
      have hstill := (htold.before q hq).error?_isSome (Option.isSome_iff_ne_none.2 hover)
      rw [hpassed (hnow ▸ hearlier) hwaiting] at hstill
      cases hstill
  resolved reason time hdone := by
    rw [hresolved] at hdone
    obtain ⟨⟨q, hq, htime, herror⟩, hfirst⟩ := htold.resolved reason time hdone
    refine ⟨⟨q, List.mem_append_left _ hq, htime, herror⟩,
      List.forall_mem_append.2 ⟨hfirst, List.forall_mem_singleton.2 fun hearlier => ?_⟩⟩
    have hnext : time ≤ next.pool.now := htime ▸ ((htold.before q hq).trans hbefore).now_le
    exact absurd hearlier (Nat.not_lt.2 hnext)

theorem moves (htold : Told c pools w) (hmoves : Moves w next) : Told c (pools ++ [next.pool]) next := by
  have hsound := htold.sound.moves hmoves
  cases hmoves with
  | polled _ hwaiting => exact htold.poll hwaiting
  | expired _ => exact htold.keep rfl hsound (.refl _) rfl fun hlater => absurd hlater (Nat.lt_irrefl _)
  | @observed op hspan =>
    refine htold.keep rfl hsound (.apply _ op) rfl fun hlater => absurd hlater ?_
    change ¬ w.pool.now < (w.pool.apply op).now
    rw [now_apply, hspan]
    exact Nat.lt_irrefl _
  | passed hidle htimer =>
    refine htold.keep rfl hsound ⟨Nat.le_succ _, fun _ hmem => hmem⟩ rfl fun _ hwaiting => ?_
    rw [← htold.context]
    exact htold.sound.error?_of_quiet ⟨htimer, hidle⟩ hwaiting

theorem of_course (hcourse : Course c p pools w) : Told c pools w := by
  induction hcourse with
  | begun => exact .begun c p
  | moved _ hmoves ih => exact ih.moves hmoves

/-- A wait that goes on for a context that is over is about to be polled. -/
theorem woken_of_over (htold : Told c pools w) (hwaiting : w.resolved = none)
    (hover : (w.pool.error? c).isSome) : w.isDue = true ∨ w.woken = true := by
  by_contra hnobody
  obtain ⟨htimer, hidle⟩ := not_or.1 hnobody
  have hquiet : w.Quiet := ⟨Bool.eq_false_iff.2 htimer, .inl (Bool.eq_false_iff.2 hidle)⟩
  rw [← htold.context, htold.sound.error?_of_quiet hquiet hwaiting] at hover
  cases hover

end Told

/-- A wait in which all is done that was to be done so far. -/
structure Settled (w : ContextWait) : Prop where
  sound : w.Sound
  quiet : w.Quiet

@[simp] theorem context_settle (w : ContextWait) : w.settle.context = w.context := by
  unfold settle pollIfWoken
  split <;> split <;> rfl

@[simp] theorem pool_settle (w : ContextWait) : w.settle.pool = w.pool := by
  unfold settle pollIfWoken
  split <;> split <;> rfl

namespace Sound

/-- Once the timer has gone off the poll, if there is to be one, finds the reason why the context is over. -/
theorem pollIfWoken (hsound : w.Sound) (htimer : w.isDue = false) :
    w.pollIfWoken.Settled ∧ w.pollIfWoken.resolved = w.resolved.or (reading w.context w.pool) := by
  unfold ContextWait.pollIfWoken
  split
  · next hpolled =>
    have hwaiting : w.resolved = none := Option.isNone_iff_eq_none.1 (Bool.and_eq_true_iff.1 hpolled).2
    refine ⟨⟨hsound.poll, htimer, .inl rfl⟩, ?_⟩
    rw [hwaiting, Option.none_or, reading, ← hsound.ready?_eq_error? htimer]
    rfl
  · next hleft =>
    have hquiet : w.Quiet := by
      refine ⟨htimer, ?_⟩
      cases hwoken : w.woken with
      | false => exact .inl rfl
      | true => exact .inr (by simpa [hwoken, Option.isSome_iff_ne_none] using hleft)
    refine ⟨⟨hsound, hquiet⟩, ?_⟩
    cases hresolved : w.resolved with
    | some found => rfl
    | none => simp [reading, hsound.error?_of_quiet hquiet hresolved]

theorem settle (hsound : w.Sound) :
    w.settle.Settled ∧ w.settle.resolved = w.resolved.or (reading w.context w.pool) := by
  unfold ContextWait.settle
  split
  · next hdue => exact (expire hdue).pollIfWoken rfl
  · next hdue => exact hsound.pollIfWoken (Bool.eq_false_iff.2 hdue)

end Sound

namespace Settled

theorem begun (c : Context) (p : ContextPool) :
    let w : ContextWait := { context := c, pool := p }
    w.settle.Settled ∧ w.settle.resolved = reading c p :=
  (Sound.begun c p).settle

/-- Time can pass up to an instant before which the timer need not go off. -/
theorem goTo (hsettled : w.Settled) {later : Instant} (hlater : w.pool.now ≤ later)
    (htimer : ∀ deadline, w.context.deadline = some deadline → deadline ≤ later → deadline ≤ w.pool.now) :
    (w.goTo later).Settled := by
  refine ⟨hsettled.sound.goTo hlater, Bool.eq_false_iff.2 fun hdue => ?_, hsettled.quiet.woken⟩
  obtain ⟨hwaiting, deadline, hdeadline, hreached⟩ := isDue_iff.1 hdue
  have hbefore : w.isDue = true :=
    isDue_iff.2 ⟨hwaiting, deadline, hdeadline, htimer deadline hdeadline hreached⟩
  cases hsettled.quiet.timer.symm.trans hbefore

theorem error?_of_waiting (hsettled : w.Settled) (hwaiting : w.resolved = none) :
    w.pool.error? w.context = none := hsettled.sound.error?_of_quiet hsettled.quiet hwaiting

theorem reading_of_waiting (hsettled : w.Settled) :
    w.resolved.or (reading w.context w.pool) = w.resolved := by
  cases hresolved : w.resolved with
  | some found => rfl
  | none => simp [reading, hsettled.error?_of_waiting hresolved]

/-- What a wait comes to while nothing is done is told by the first instant at which the context is over. -/
theorem pass (hsettled : w.Settled) (ms : Nat) :
    (w.pass ms).Settled ∧
      (w.pass ms).resolved = w.resolved.or ((w.pool.moments ms).findSome? (reading w.context)) := by
  have hlast : w.pool.now ≤ w.pool.now + ms := Nat.le_add_right ..
  have hlasting (hwaiting : w.resolved = none) :
      w.context.token.isCancelled w.pool.cancelled = false ∧
        ∀ deadline, w.context.deadline = some deadline → w.pool.now < deadline := by
    have hnone : ¬ (w.pool.error? w.context).isSome := by simp [hsettled.error?_of_waiting hwaiting]
    rw [error?_isSome_iff, not_or] at hnone
    exact ⟨Bool.eq_false_iff.2 hnone.1, fun deadline hdeadline =>
      Nat.lt_of_not_le fun hreached => hnone.2 ⟨deadline, hdeadline, hreached⟩⟩
  unfold ContextWait.pass
  dsimp only
  split
  · next deadline hfilter =>
    obtain ⟨hdeadline, hwithin⟩ := Option.filter_eq_some_iff.1 hfilter
    obtain ⟨hlater, hspan⟩ : w.pool.now ≤ deadline ∧ deadline ≤ w.pool.now + ms := by simpa using hwithin
    obtain ⟨hthen, hresolved⟩ := (hsettled.sound.goTo hlater).settle
    constructor
    · refine hthen.goTo (by simpa [ContextWait.goTo] using hspan) fun other hother _ => ?_
      rw [context_settle] at hother
      cases hdeadline.symm.trans hother
      simp [ContextWait.goTo]
    · refine hresolved.trans ?_
      cases hwaiting : w.resolved with
      | some found => simp [ContextWait.goTo, hwaiting]
      | none =>
        obtain ⟨hcancelled, -⟩ := hlasting hwaiting
        rw [findSome?_moments_of_deadline hcancelled hdeadline hlater hspan]
        simp [ContextWait.goTo, hwaiting, reading, error?, hcancelled, hdeadline]
  · next hfilter =>
    have houtside (deadline : Instant) (hdeadline : w.context.deadline = some deadline)
        (hspan : deadline ≤ w.pool.now + ms) : deadline < w.pool.now :=
      Nat.lt_of_not_le fun hlater => by
        simp [hdeadline, hlater] at hfilter
        exact Nat.not_lt.2 hspan hfilter
    refine ⟨hsettled.goTo hlast fun deadline hdeadline hspan =>
      Nat.le_of_lt (houtside deadline hdeadline hspan), ?_⟩
    cases hwaiting : w.resolved with
    | some found => simp [ContextWait.goTo, hwaiting]
    | none =>
      obtain ⟨hcancelled, hlater⟩ := hlasting hwaiting
      rw [findSome?_moments_of_lasting hcancelled fun deadline hdeadline =>
        Nat.lt_of_not_le fun hspan =>
          Nat.lt_asymm (hlater deadline hdeadline) (houtside deadline hdeadline hspan)]
      simp [ContextWait.goTo, hwaiting]

/-- After an operation a wait has come to what the instants of the operation and its end tell. -/
theorem perform (hsettled : w.Settled) (op : ContextOp) :
    (w.perform op).Settled ∧ (w.perform op).context = w.context ∧ (w.perform op).pool = w.pool.apply op ∧
      (w.perform op).resolved =
        (w.resolved.or ((w.pool.moments op.span).findSome? (reading w.context))).or
          (reading w.context (w.pool.apply op)) := by
  have hobserved : (w.observe op).settle.Settled ∧ (w.observe op).settle.context = w.context ∧
      (w.observe op).settle.pool = w.pool.apply op ∧ (w.observe op).settle.resolved =
        (w.resolved.or ((w.pool.moments 0).findSome? (reading w.context))).or
          (reading w.context (w.pool.apply op)) := by
    obtain ⟨hafter, hresolved⟩ := (hsettled.sound.observe op).settle
    refine ⟨hafter, context_settle _, pool_settle _, hresolved.trans ?_⟩
    have hbefore : (w.pool.moments 0).findSome? (reading w.context) = reading w.context w.pool := by
      simp [moments]
    rw [hbefore, hsettled.reading_of_waiting]
    rfl
  cases op with
  | advance ms =>
    obtain ⟨hafter, hresolved⟩ := hsettled.pass ms
    have hcontext : (w.pass ms).context = w.context := by
      unfold ContextWait.pass
      dsimp only
      split <;> simp [ContextWait.goTo]
    have hpool : (w.pass ms).pool = w.pool.apply (.advance ms) := by
      unfold ContextWait.pass
      dsimp only
      split <;> simp [ContextWait.goTo, ContextPool.apply]
    refine ⟨hafter, hcontext, hpool, ?_⟩
    rw [← hcontext, ← hpool, hcontext, ContextOp.span, ← hresolved, ← hcontext]
    exact hafter.reading_of_waiting.symm
  | _ => exact hobserved

theorem run (hsettled : w.Settled) (ops : List ContextOp) :
    (ops.foldl ContextWait.perform w).resolved =
      w.resolved.or ((w.pool.stages ops).findSome? (reading w.context)) := by
  induction ops generalizing w with
  | nil => simp [stages, hsettled.reading_of_waiting]
  | cons op ops ih =>
    obtain ⟨hafter, hcontext, hpool, hresolved⟩ := hsettled.perform op
    obtain ⟨later, hstages⟩ := (w.pool.apply op).stages_eq_cons ops
    have htwice : (reading w.context (w.pool.apply op)).or
        (((w.pool.apply op).stages ops).findSome? (reading w.context)) =
          ((w.pool.apply op).stages ops).findSome? (reading w.context) := by
      rw [hstages, List.findSome?_cons]
      cases reading w.context (w.pool.apply op) <;> rfl
    rw [List.foldl_cons, ih hafter, hcontext, hpool, hresolved, Option.or_assoc, htwice, Option.or_assoc, stages,
      List.findSome?_append]

end Settled

end ContextWait

/-- A wait that is polled as soon as it is woken comes to what the first instant tells at which the context is
    over. -/
theorem ContextPool.awaitDuring_eq (c : Context) (p : ContextPool) (ops : List ContextOp) :
    p.awaitDuring c ops = (p.stages ops).findSome? (reading c) := by
  obtain ⟨hsettled, hresolved⟩ := ContextWait.Settled.begun c p
  obtain ⟨later, hstages⟩ := p.stages_eq_cons ops
  refine (hsettled.run ops).trans ?_
  rw [hresolved, ContextWait.context_settle, ContextWait.pool_settle, hstages, List.findSome?_cons]
  cases reading c p <;> rfl

end DhtStore
