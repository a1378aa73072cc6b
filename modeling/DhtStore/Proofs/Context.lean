import DhtStore.Proofs.Context.Waits
import Mathlib.Data.List.Infix

namespace DhtStore

/-- How a context was made, from which other, and which token or deadline it got by that. -/
inductive Derivation
  | new (token : Nat)
  | clone (parent : Derivation)
  | child (token : Nat) (parent : Derivation)
  | limited (deadline : Instant) (parent : Derivation)
  /-- A context around the token of another. -/
  | around (parent : Derivation)
deriving DecidableEq

namespace Derivation

/-- A context's own token, then those that it descends from. -/
def tokens : Derivation → List Nat
  | new token => [token]
  | child token parent => token :: parent.tokens
  | clone parent | limited _ parent | around parent => parent.tokens

/-- The token that cancelling a context cancels. -/
def token : Derivation → Nat
  | new token | child token _ => token
  | clone parent | limited _ parent | around parent => parent.token

/-- The deadlines that were set on the way to a context since it last had none for certain. -/
def deadlines : Derivation → List Instant
  | new _ | around _ => []
  | clone parent | child _ parent => parent.deadlines
  | limited deadline parent => deadline :: parent.deadlines

def context : Derivation → Context
  | new token => { token := ⟨token, []⟩ }
  | clone parent => parent.context
  | child token parent => parent.context.child token
  | limited deadline parent => parent.context.withDeadline deadline
  | around parent => parent.context.withoutDeadline

/-- One context was made from the other, with the same token or a child's and no deadline lifted. -/
inductive Narrows (d : Derivation) : Derivation → Prop
  | refl : Narrows d d
  | clone {e : Derivation} : Narrows d e → Narrows d (.clone e)
  | child {e : Derivation} (token : Nat) : Narrows d e → Narrows d (.child token e)
  | limited {e : Derivation} (deadline : Instant) : Narrows d e → Narrows d (.limited deadline e)

theorem tokens_eq (d : Derivation) : ∃ ancestors, d.tokens = d.token :: ancestors := by
  induction d with
  | new token => exact ⟨[], rfl⟩
  | child token parent _ => exact ⟨parent.tokens, rfl⟩
  | clone parent ih | limited _ parent ih | around parent ih => exact ih

theorem token_mem_tokens (d : Derivation) : d.token ∈ d.tokens := by
  obtain ⟨ancestors, htokens⟩ := d.tokens_eq
  simp [htokens]

theorem token_context (d : Derivation) :
    d.context.token.number = d.token ∧
      d.context.token.number :: d.context.token.ancestors = d.tokens := by
  induction d with
  | new token => exact ⟨rfl, rfl⟩
  | child token parent ih => exact ⟨rfl, congrArg (token :: ·) ih.2⟩
  | clone parent ih | limited _ parent ih | around parent ih => exact ih

/-- The deadline of a context is the earliest of those set on the way to it. -/
theorem deadline_context (d : Derivation) : d.context.deadline = d.deadlines.min? := by
  induction d with
  | new token => rfl
  | around parent _ => rfl
  | clone parent ih | child _ parent ih => exact ih
  | limited deadline parent ih =>
    simp only [context, Context.withDeadline, deadlines, List.min?_cons, ih]
    cases parent.deadlines.min? with
    | none => rfl
    | some current => exact congrArg some (Nat.min_comm ..)

theorem isCancelled_context (d : Derivation) (cancelled : List Nat) :
    d.context.token.isCancelled cancelled = true ↔ ∃ token ∈ cancelled, token ∈ d.tokens := by
  rw [CancelToken.isCancelled, d.token_context.2]
  simp [and_comm]

theorem Narrows.tokens_suffix {d e : Derivation} (h : d.Narrows e) : d.tokens <:+ e.tokens := by
  induction h with
  | refl => exact List.suffix_rfl
  | clone _ ih | limited _ _ ih => exact ih
  | child token _ ih => exact ih.trans (List.suffix_cons token _)

theorem Narrows.deadlines_suffix {d e : Derivation} (h : d.Narrows e) :
    d.deadlines <:+ e.deadlines := by
  induction h with
  | refl => exact List.suffix_rfl
  | clone _ ih | child _ _ ih => exact ih
  | limited deadline _ ih => exact ih.trans (List.suffix_cons deadline _)

end Derivation

/-- Contexts by how each was made, and those that were cancelled by name, the last one first. -/
structure Lineage where
  now : Instant := 0
  tokens : Nat := 1
  cancelled : List Derivation := []
  derivations : List Derivation := [.new 0]

namespace Lineage

def derive (l : Lineage) (slot : Nat) (make : Derivation → Derivation) : Lineage :=
  match l.derivations[slot]? with
  | none => l
  | some d => { l with derivations := l.derivations ++ [make d] }

def apply (l : Lineage) : ContextOp → Lineage
  | .clone slot => l.derive slot .clone
  | .child slot => { l.derive slot (.child l.tokens) with tokens := l.tokens + 1 }
  | .withTimeout slot ms => l.derive slot (.limited (l.now + ms))
  | .withDeadline slot deadline => l.derive slot (.limited deadline)
  | .withCancellation slot => l.derive slot .around
  | .fresh => { l with derivations := l.derivations ++ [.new l.tokens], tokens := l.tokens + 1 }
  | .cancel slot =>
    match l.derivations[slot]? with
    | none => l
    | some d => { l with cancelled := d :: l.cancelled }
  | .advance ms => { l with now := l.now + ms }

/-- What was made and cancelled by some operations. -/
def after (ops : List ContextOp) : Lineage := ops.foldl apply {}

/-- The contexts themselves. -/
def pool (l : Lineage) : ContextPool where
  now := l.now
  tokens := l.tokens
  cancelled := l.cancelled.map Derivation.token
  contexts := l.derivations.map Derivation.context

end Lineage

/-- The contexts that some operations leave. -/
def ContextPool.after (ops : List ContextOp) : ContextPool := ops.foldl ContextPool.apply {}

namespace Lineage

theorem pool_derive (l : Lineage) (slot : Nat) {make : Derivation → Derivation} {f : Context → Context}
    (hmake : ∀ d, (make d).context = f d.context) :
    (l.derive slot make).pool = l.pool.derive slot f := by
  unfold derive ContextPool.derive
  cases hslot : l.derivations[slot]? <;> simp [pool, hslot, hmake]

theorem pool_apply (l : Lineage) (op : ContextOp) : (l.apply op).pool = l.pool.apply op := by
  cases op with
  | clone slot => exact l.pool_derive slot fun _ => rfl
  | withTimeout slot ms => exact l.pool_derive slot fun _ => rfl
  | withDeadline slot deadline => exact l.pool_derive slot fun _ => rfl
  | withCancellation slot => exact l.pool_derive slot fun _ => rfl
  | child slot =>
    have hderive : (l.derive slot (.child l.tokens)).pool = l.pool.derive slot (·.child l.tokens) :=
      l.pool_derive slot fun _ => rfl
    exact congrArg (fun p : ContextPool => { p with tokens := l.tokens + 1 }) hderive
  | fresh => simp [apply, ContextPool.apply, pool, Derivation.context]
  | cancel slot =>
    unfold apply ContextPool.apply
    cases hslot : l.derivations[slot]? with
    | none => simp [pool, hslot]
    | some d => simp [pool, hslot, d.token_context.1]
  | advance ms => rfl

/-- A context is what its derivation says, throughout. -/
theorem pool_after (ops : List ContextOp) : (after ops).pool = ContextPool.after ops := by
  have hfoldl (l : Lineage) : (ops.foldl apply l).pool = ops.foldl ContextPool.apply l.pool := by
    induction ops generalizing l with
    | nil => rfl
    | cons op ops ih => rw [List.foldl_cons, List.foldl_cons, ih, pool_apply]
  exact hfoldl {}

/-- No two tokens have one number: whoever knows a number knows all that its token descends from. -/
structure Sound (l : Lineage) : Prop where
  cancelled : ∀ d ∈ l.cancelled, d ∈ l.derivations
  issued : ∀ d ∈ l.derivations, ∀ token ∈ d.tokens, token < l.tokens
  apart : ∀ d ∈ l.derivations, ∀ e ∈ l.derivations, d.token ∈ e.tokens → d.tokens <:+ e.tokens

namespace Sound

variable {l : Lineage}

/-- A context may come to have the token of one that is there. -/
theorem share (h : l.Sound) {d made : Derivation} (hd : d ∈ l.derivations) (htokens : made.tokens = d.tokens)
    (htoken : made.token = d.token) : Sound { l with derivations := l.derivations ++ [made] } where
  cancelled e he := List.mem_append_left _ (h.cancelled e he)
  issued e he := by
    rcases List.mem_append.1 he with he | he
    · exact h.issued e he
    · cases List.mem_singleton.1 he
      exact htokens ▸ h.issued d hd
  apart e he f hf := by
    have stands {e : Derivation} (he : e ∈ l.derivations ++ [made]) :
        ∃ e' ∈ l.derivations, e.tokens = e'.tokens ∧ e.token = e'.token := by
      rcases List.mem_append.1 he with he | he
      · exact ⟨e, he, rfl, rfl⟩
      · cases List.mem_singleton.1 he
        exact ⟨d, hd, htokens, htoken⟩
    obtain ⟨e', he', hetokens, hetoken⟩ := stands he
    obtain ⟨f', hf', hftokens, -⟩ := stands hf
    rw [hetokens, hetoken, hftokens]
    exact h.apart e' he' f' hf'

/-- A context may come with a token of its own, that descends from none or from that of one that is there. -/
theorem issue (h : l.Sound) {made : Derivation} {ancestors : List Nat}
    (htokens : made.tokens = l.tokens :: ancestors)
    (hancestors : ancestors = [] ∨ ∃ d ∈ l.derivations, ancestors = d.tokens) :
    Sound { l with derivations := l.derivations ++ [made], tokens := l.tokens + 1 } where
  cancelled e he := List.mem_append_left _ (h.cancelled e he)
  issued e he token hmem := by
    rcases List.mem_append.1 he with he | he
    · exact Nat.lt_succ_of_lt (h.issued e he token hmem)
    · cases List.mem_singleton.1 he
      rw [htokens] at hmem
      rcases List.mem_cons.1 hmem with rfl | hmem
      · exact Nat.lt_succ_self _
      · obtain rfl | ⟨d, hd, rfl⟩ := hancestors
        · cases hmem
        · exact Nat.lt_succ_of_lt (h.issued d hd token hmem)
  apart e he f hf hmem := by
    have htoken : made.token = l.tokens := by
      obtain ⟨others, hothers⟩ := made.tokens_eq
      exact (List.cons.inj (hothers.symm.trans htokens)).1
    rcases List.mem_append.1 he with he | he <;> rcases List.mem_append.1 hf with hf | hf
    · exact h.apart e he f hf hmem
    · cases List.mem_singleton.1 hf
      rw [htokens] at hmem ⊢
      rcases List.mem_cons.1 hmem with hnew | hmem
      · exact absurd (h.issued e he _ e.token_mem_tokens) (hnew ▸ Nat.lt_irrefl _)
      · obtain rfl | ⟨d, hd, rfl⟩ := hancestors
        · cases hmem
        · exact (h.apart e he d hd hmem).trans (List.suffix_cons _ _)
    · cases List.mem_singleton.1 he
      exact absurd (h.issued f hf _ hmem) (htoken ▸ Nat.lt_irrefl _)
    · cases List.mem_singleton.1 he
      cases List.mem_singleton.1 hf
      exact List.suffix_rfl

theorem derive (h : l.Sound) (slot : Nat) {make : Derivation → Derivation}
    (htokens : ∀ d, (make d).tokens = d.tokens) (htoken : ∀ d, (make d).token = d.token) :
    (l.derive slot make).Sound := by
  unfold Lineage.derive
  split
  · exact h
  · next d hslot => exact h.share (List.mem_of_getElem? hslot) (htokens d) (htoken d)

theorem apply (h : l.Sound) (op : ContextOp) : (l.apply op).Sound := by
  cases op with
  | clone slot | withTimeout slot | withDeadline slot | withCancellation slot =>
    exact h.derive slot (fun _ => rfl) (fun _ => rfl)
  | child slot =>
    cases hslot : l.derivations[slot]? with
    | none =>
      -- A number is left out when there is no such parent.
      simp only [Lineage.apply, Lineage.derive, hslot]
      exact ⟨h.cancelled, fun d hd token hmem => Nat.lt_succ_of_lt (h.issued d hd token hmem), h.apart⟩
    | some d =>
      simp only [Lineage.apply, Lineage.derive, hslot]
      exact h.issue rfl (.inr ⟨d, List.mem_of_getElem? hslot, rfl⟩)
  | fresh => exact h.issue rfl (.inl rfl)
  | cancel slot =>
    cases hslot : l.derivations[slot]? with
    | none => simpa only [Lineage.apply, hslot] using h
    | some d =>
      simp only [Lineage.apply, hslot]
      exact ⟨List.forall_mem_cons.2 ⟨List.mem_of_getElem? hslot, h.cancelled⟩, h.issued, h.apart⟩
  | advance ms => exact ⟨h.cancelled, h.issued, h.apart⟩

end Sound

theorem sound_after (ops : List ContextOp) : (after ops).Sound := by
  have hfoldl {l : Lineage} (h : l.Sound) : (ops.foldl apply l).Sound := by
    induction ops generalizing l with
    | nil => exact h
    | cons op ops ih => exact ih (h.apply op)
  exact hfoldl ⟨by simp, by simp [Derivation.tokens], by simp [Derivation.token, Derivation.tokens]⟩

end Lineage

namespace Lineage

variable {l : Lineage} {d e : Derivation}

/-- A context is cancelled by name, or with one whose token its own descends from, and in no other way. -/
theorem Sound.isCancelled_iff (h : l.Sound) (hd : d ∈ l.derivations) :
    d.context.token.isCancelled l.pool.cancelled = true ↔ ∃ e ∈ l.cancelled, e.tokens <:+ d.tokens := by
  rw [Derivation.isCancelled_context]
  constructor
  · rintro ⟨_, hmem, htoken⟩
    obtain ⟨e, he, rfl⟩ := List.mem_map.1 hmem
    exact ⟨e, he, h.apart e (h.cancelled e he) d hd htoken⟩
  · rintro ⟨e, he, hsuffix⟩
    exact ⟨e.token, List.mem_map.2 ⟨e, he, rfl⟩, hsuffix.subset e.token_mem_tokens⟩

/-- Whatever was made from a context without lifting its deadline is over once the context is. -/
theorem error?_isSome_of_narrows (hnarrows : d.Narrows e) (hover : (l.pool.error? d.context).isSome) :
    (l.pool.error? e.context).isSome := by
  rw [ContextPool.error?_isSome_iff, Derivation.isCancelled_context] at hover ⊢
  rcases hover with ⟨token, hmem, htoken⟩ | ⟨deadline, hdeadline, hle⟩
  · exact .inl ⟨token, hmem, hnarrows.tokens_suffix.subset htoken⟩
  · right
    rw [d.deadline_context] at hdeadline
    rw [e.deadline_context]
    have hmem : deadline ∈ e.deadlines :=
      hnarrows.deadlines_suffix.subset (List.min?_mem hdeadline)
    cases hmin : e.deadlines.min? with
    | none => exact absurd hmem (by simp [List.min?_eq_none_iff.1 hmin])
    | some earliest =>
      have hearliest : earliest ≤ deadline := (List.le_min?_iff hmin).1 (Nat.le_refl _) deadline hmem
      exact ⟨earliest, rfl, Nat.le_trans hearliest hle⟩

end Lineage

/-- Cancellation scopes: whatever was done with contexts so far and whatever is done with them later,
    - a context is cancelled if and only if one was that has its token or one that its token descends from,
    - its deadline is the earliest of those set on the way to it since it was last made with none,
    - the reason it gives is its cancellation, or else its deadline when that is reached, or else none,
    - a wait for it ends at the first instant at which it gives a reason, with the reason that it gives then,
      however the wait and its timer take turns with those who work with the contexts,
    - it goes on giving a reason once it does, and
    - while it does, all contexts made from it without lifting its deadline do. -/
theorem ContextPool.cancellation_scopes (ops later : List ContextOp) :
    (ContextPool.after ops).contexts = (Lineage.after ops).derivations.map Derivation.context ∧
    ∀ d ∈ (Lineage.after ops).derivations,
      (d.context.token.isCancelled (ContextPool.after ops).cancelled = true ↔
        ∃ e ∈ (Lineage.after ops).cancelled, e.tokens <:+ d.tokens) ∧
      d.context.deadline = d.deadlines.min? ∧
      (ContextPool.after ops).error? d.context =
        (if d.context.token.isCancelled (ContextPool.after ops).cancelled then some .canceled
          else if d.context.deadline.any (· ≤ (ContextPool.after ops).now) then some .deadlineExceeded
          else none) ∧
      (ContextPool.after ops).awaitDuring d.context later =
        ((ContextPool.after ops).stages later).findSome? (reading d.context) ∧
      (∀ pools wait, ContextWait.Course d.context (ContextPool.after ops) pools wait →
        (∀ reason time, wait.resolved = some (reason, time) →
          (∃ p ∈ pools, p.now = time ∧ p.error? d.context = some reason) ∧
            ∀ p ∈ pools, p.now < time → p.error? d.context = none) ∧
        (wait.resolved = none →
          (∀ p ∈ pools, p.now < wait.pool.now → p.error? d.context = none) ∧
            ((wait.pool.error? d.context).isSome → wait.isDue = true ∨ wait.woken = true))) ∧
      ((ContextPool.after ops).stages later).Pairwise
        (fun p q => (p.error? d.context).isSome → (q.error? d.context).isSome) ∧
      ∀ e ∈ (Lineage.after ops).derivations, d.Narrows e →
        ((ContextPool.after ops).error? d.context).isSome →
          ((ContextPool.after ops).error? e.context).isSome := by
  have hpool := Lineage.pool_after ops
  refine ⟨by rw [← hpool]; rfl, fun d hd => ⟨?_, d.deadline_context, error?_eq, awaitDuring_eq _ _ later,
    fun pools wait hcourse => ?_, ?_, ?_⟩⟩
  · rw [← hpool]
    exact (Lineage.sound_after ops).isCancelled_iff hd
  · have htold := ContextWait.Told.of_course hcourse
    exact ⟨htold.resolved, fun hwaiting => ⟨htold.waiting hwaiting, htold.woken_of_over hwaiting⟩⟩
  · exact (pairwise_stages later).imp fun hbefore => hbefore.error?_isSome
  · intro e _ hnarrows
    rw [← hpool]
    exact Lineage.error?_isSome_of_narrows hnarrows

/-- Of two children of one context the first is cancelled: the other lasts until its deadline. When a context is
    cancelled at the very instant of its deadline, that is the reason even if the timer has gone off by then. -/
theorem ContextPool.cancellation_scopes_siblings :
    let ops : List ContextOp := [.child 0, .child 0, .cancel 1, .withTimeout 2 5]
    let d : Derivation := .limited 5 (.child 2 (.new 0))
    d ∈ (Lineage.after ops).derivations ∧
      d.context.token.isCancelled (ContextPool.after ops).cancelled = false ∧
      (ContextPool.after ops).awaitDuring d.context [.advance 3, .cancel 0, .advance 9] =
        some (.canceled, 3) ∧
      (ContextPool.after ops).awaitDuring d.context [.advance 3, .cancel 1, .advance 9] =
        some (.deadlineExceeded, 5) ∧
      let limited : Derivation := .limited 0 (.new 0)
      ∃ pools wait, ContextWait.Course limited.context (.after [.withTimeout 0 0]) pools wait ∧
        wait.elapsed = true ∧ wait.resolved = some (.canceled, 0) ∧
          ∃ p ∈ pools, p.now = 0 ∧ p.error? limited.context = some .canceled := by
  intro ops d
  have hmem : d ∈ (Lineage.after ops).derivations := by decide
  obtain ⟨hcancelled, -, -, hparent, -⟩ :=
    (ContextPool.cancellation_scopes ops [.advance 3, .cancel 0, .advance 9]).2 d hmem
  obtain ⟨-, -, -, hsibling, -⟩ :=
    (ContextPool.cancellation_scopes ops [.advance 3, .cancel 1, .advance 9]).2 d hmem
  refine ⟨hmem, ?_, hparent.trans (by decide), hsibling.trans (by decide), ?_⟩
  · exact Bool.eq_false_iff.2 fun h => absurd (hcancelled.1 h) (by decide)
  · intro limited
    obtain ⟨-, -, -, -, hcourses, -⟩ :=
      (ContextPool.cancellation_scopes [.withTimeout 0 0] []).2 limited (by decide)
    have hcourse := ((ContextWait.Course.begun (c := limited.context)
      (p := .after [.withTimeout 0 0])).moved (.expired rfl)).moved (@ContextWait.Moves.observed _ (.cancel 0) rfl)
    have hpolled := hcourse.moved (.polled rfl rfl)
    exact ⟨_, _, hpolled, rfl, rfl, ((hcourses _ _ hpolled).1 _ _ rfl).1⟩

end DhtStore
