import DhtStore.Proofs.RecencyCache
import DhtStore.Proofs.Testnet.Puts

namespace DhtStore

namespace StorageNode

/-- Something that is done to a node. -/
inductive Operation
  | put (requester : Address) (request : PutRequest)
  | get (requester : Address) (request : GetRequest) (nodes : List Node)
  /-- Looks at what is held at a target. -/
  | inspect (target : NodeId)
  | setBehavior (behavior : Behavior)
  /-- Issues tokens under a new secret. -/
  | rotate (secret : Secret)
  /-- Holds an item without any check. -/
  | store (item : Item)

def perform (n : StorageNode) : Operation → StorageNode
  | .put requester request => (n.handlePut requester request).2
  | .get requester request nodes => (n.handleGet requester request nodes).2
  | .inspect target => (n.item target).2
  | .setBehavior behavior => { n with behavior }
  | .rotate secret => { n with secrets := n.secrets.rotate secret }
  | .store item => n.store item

/-- A node after some operations, one after the other. -/
def after (n : StorageNode) (operations : List Operation) : StorageNode := operations.foldl perform n

namespace Operation

/-- The item that an operation gives a node to hold. -/
def given? (n : StorageNode) : Operation → Option Item
  | put requester request =>
    match (n.handlePut requester request).1 with
    | .ok () => some request.item
    | .error _ => none
  | store item => some item
  | _ => none

/-- The target at which an operation has a node look for an immutable value. -/
def immutableSought? : Operation → Option NodeId
  | get _ request _ => if request.seq.isNone then some request.target else none
  | inspect target => some target
  | _ => none

/-- The target at which an operation has a node look for a mutable item, and leave it as it is: that of a get
    or an inspection that does not find an immutable value, or of a put that is refused as outdated. -/
def mutableSought? (n : StorageNode) : Operation → Option NodeId
  | put requester request =>
    if (n.handlePut requester request).1 = .error .outdated then some request.item.target else none
  | get _ request _ =>
    if request.seq.isNone && (n.immutables.peek? request.target).isSome then none else some request.target
  | inspect target => if (n.immutables.peek? target).isSome then none else some target
  | _ => none

/-- The immutable value that an operation has a node use, with its target. -/
def immutableUse? (n : StorageNode) (operation : Operation) : Option (NodeId × Bytes) :=
  match operation.given? n with
  | some (.immutable value) => some (immutableTarget value, value)
  | some (.mutable _) => none
  | none => operation.immutableSought?.bind n.immutables.entry?

/-- The mutable item that an operation has a node use, with the target that it is held at. -/
def mutableUse? (n : StorageNode) (operation : Operation) : Option (NodeId × MutableItem) :=
  match operation.given? n with
  | some (.mutable item) => some (item.target, item)
  | some (.immutable _) => none
  | none => (operation.mutableSought? n).bind n.mutables.entry?

end Operation

variable {n : StorageNode} {operation : Operation} {operations : List Operation}

/-- A put has a node store the item, which it does only if it has nothing to object to in it, or at most look for
    the item held. -/
theorem handlePut_cases (n : StorageNode) (requester : Address) (request : PutRequest) :
    (n.Accepts request.item ∧ n.handlePut requester request = (.ok (), n.store request.item)) ∨
      n.handlePut requester request = (.error .outdated, (n.useMutable request.item.target).2) ∨
      ∃ refusal, refusal ≠ .outdated ∧ n.handlePut requester request = (.error refusal, n) := by
  obtain ⟨hnone, hok⟩ | ⟨refusal, -, hrefused⟩ := n.handlePut_spec requester request
  · exact .inl ⟨accepts_iff.2 fun refusal _ => hnone refusal, hok⟩
  · by_cases houtdated : refusal = .outdated
    · rw [if_pos houtdated, houtdated] at hrefused
      exact .inr (.inl hrefused)
    · rw [if_neg houtdated] at hrefused
      exact .inr (.inr ⟨refusal, houtdated, hrefused⟩)

theorem handlePut_of_ok {requester : Address} {request : PutRequest} {m : StorageNode}
    (hput : n.handlePut requester request = (.ok (), m)) :
    n.Accepts request.item ∧ m = n.store request.item := by
  obtain ⟨haccepts, hok⟩ | houtdated | ⟨refusal, -, hrefused⟩ := n.handlePut_cases requester request
  · exact ⟨haccepts, congrArg Prod.snd (hput.symm.trans hok)⟩
  · cases hput.symm.trans houtdated
  · cases hput.symm.trans hrefused

theorem caches_item (n : StorageNode) (target : NodeId) :
    (n.item target).2.immutables = n.immutables.afterUse (n.immutables.entry? target) ∧
      (n.item target).2.mutables = if (n.immutables.peek? target).isSome then n.mutables else
        n.mutables.afterUse (n.mutables.entry? target) := by
  have hfound : (n.useImmutable target).1 = n.immutables.peek? target := fst_useImmutable
  rw [← RecencyCache.snd_use, ← RecencyCache.snd_use, ← hfound]
  unfold item
  split
  all_goals
    next huse =>
    rw [huse]
    obtain rfl := congrArg Prod.snd huse
    exact ⟨rfl, rfl⟩

theorem caches_lookup (n : StorageNode) (request : GetRequest) (reply : GetReply) :
    let after := (n.lookup request reply).2
    after.immutables = (if request.seq.isNone then
        n.immutables.afterUse (n.immutables.entry? request.target)
      else n.immutables) ∧
    after.mutables = if request.seq.isNone && (n.immutables.peek? request.target).isSome then n.mutables else
        n.mutables.afterUse (n.mutables.entry? request.target) := by
  obtain ⟨target, seq⟩ := request
  have hfound : (n.useImmutable target).1 = n.immutables.peek? target := fst_useImmutable
  rw [← RecencyCache.snd_use, ← RecencyCache.snd_use, ← hfound]
  cases seq with
  | some hint =>
    simp only [lookup]
    split
    all_goals
      next huse =>
      obtain rfl := congrArg Prod.snd huse
      exact ⟨rfl, rfl⟩
  | none =>
    simp only [lookup]
    cases (n.useImmutable target).1 with
    | some value => exact ⟨rfl, rfl⟩
    | none =>
      dsimp only
      split
      all_goals
        next huse =>
        obtain rfl := congrArg Prod.snd huse
        exact ⟨rfl, rfl⟩

/-- An operation does nothing to what a node holds, other than to use what it says it uses. -/
theorem caches_perform (n : StorageNode) (operation : Operation) :
    (n.perform operation).immutables = n.immutables.afterUse (operation.immutableUse? n) ∧
      (n.perform operation).mutables = n.mutables.afterUse (operation.mutableUse? n) := by
  cases operation with
  | put requester request =>
    obtain ⟨-, hok⟩ | houtdated | ⟨refusal, hne, hrefused⟩ := n.handlePut_cases requester request
    · have hafter : n.perform (.put requester request) = n.store request.item := congrArg Prod.snd hok
      have hgiven : (Operation.put requester request).given? n = some request.item := by
        simp only [Operation.given?, hok]
      rw [hafter, Operation.immutableUse?, Operation.mutableUse?, hgiven]
      cases request.item <;> exact ⟨rfl, rfl⟩
    · simp only [perform, houtdated, Operation.immutableUse?, Operation.mutableUse?, Operation.given?,
        Operation.immutableSought?, Operation.mutableSought?, if_true, Option.bind_some, Option.bind_none,
        ← RecencyCache.snd_use]
      exact ⟨rfl, rfl⟩
    · have hother : (Except.error refusal : Except Refusal Unit) ≠ .error .outdated :=
        fun heq => hne (Except.error.inj heq)
      simp only [perform, hrefused, Operation.immutableUse?, Operation.mutableUse?, Operation.given?,
        Operation.immutableSought?, Operation.mutableSought?, if_neg hother, Option.bind_none]
      exact ⟨rfl, rfl⟩
  | get requester request nodes =>
    obtain ⟨himmutables, hmutables⟩ := n.caches_lookup request
      { responder := some n.id, token := some (n.secrets.generate requester), nodes }
    refine ⟨himmutables.trans ?_, hmutables.trans ?_⟩
    · simp only [Operation.immutableUse?, Operation.given?, Operation.immutableSought?]
      split <;> rfl
    · simp only [Operation.mutableUse?, Operation.given?, Operation.mutableSought?]
      split <;> rfl
  | inspect target =>
    obtain ⟨himmutables, hmutables⟩ := n.caches_item target
    refine ⟨himmutables, hmutables.trans ?_⟩
    simp only [Operation.mutableUse?, Operation.given?, Operation.mutableSought?]
    split <;> rfl
  | store item => cases item <;> exact ⟨rfl, rfl⟩
  | setBehavior behavior => exact ⟨rfl, rfl⟩
  | rotate secret => exact ⟨rfl, rfl⟩

/-- An item that is given to a node was put there, and there was nothing to object to in it; or it was stored
    without a check. -/
theorem exists_of_given {item : Item} (hgiven : operation.given? n = some item) :
    (∃ requester request, operation = .put requester request ∧ request.item = item ∧ n.Accepts item) ∨
      operation = .store item := by
  cases operation with
  | put requester request =>
    cases hput : n.handlePut requester request with
    | mk answer m =>
      cases answer with
      | ok _ =>
        simp only [Operation.given?, hput, Option.some_inj] at hgiven
        exact .inl ⟨requester, request, rfl, hgiven, hgiven ▸ (handlePut_of_ok hput).1⟩
      | error refusal => simp [Operation.given?, hput] at hgiven
  | store stored => exact .inr (congrArg Operation.store (Option.some_inj.1 hgiven))
  | get requester request nodes => cases hgiven
  | inspect target => cases hgiven
  | setBehavior behavior => cases hgiven
  | rotate secret => cases hgiven

/-- A mutable item that is used was held at its target before, or is given to the node to hold there. -/
theorem mutableUse?_cases {target : NodeId} {item : MutableItem}
    (huse : operation.mutableUse? n = some (target, item)) :
    n.mutables.peek? target = some item ∨ operation.given? n = some (.mutable item) ∧ item.target = target := by
  unfold Operation.mutableUse? at huse
  split at huse
  · next given hgiven =>
    cases huse
    exact .inr ⟨hgiven, rfl⟩
  · cases huse
  · obtain ⟨sought, -, hfound⟩ := Option.bind_eq_some_iff.1 huse
    exact .inl (RecencyCache.peek?_of_entry? hfound)

theorem immutableUse?_cases {target : NodeId} {value : Bytes}
    (huse : operation.immutableUse? n = some (target, value)) :
    n.immutables.peek? target = some value ∨ immutableTarget value = target := by
  unfold Operation.immutableUse? at huse
  split at huse
  · cases huse
    exact .inr rfl
  · cases huse
  · obtain ⟨sought, -, hfound⟩ := Option.bind_eq_some_iff.1 huse
    exact .inl (RecencyCache.peek?_of_entry? hfound)

/-- What a node holds after an operation it held before, or it is given it, to hold at its own target. -/
theorem mem_mutables_perform {target : NodeId} {item : MutableItem}
    (hmem : (target, item) ∈ (n.perform operation).mutables.entries) :
    (target, item) ∈ n.mutables.entries ∨
      operation.given? n = some (.mutable item) ∧ item.target = target := by
  rw [(n.caches_perform operation).2] at hmem
  obtain huse | hheld := RecencyCache.mem_entries_afterUse hmem
  · exact (mutableUse?_cases huse).imp_left RecencyCache.mem_entries_of_peek?
  · exact .inl hheld

theorem mem_immutables_perform {target : NodeId} {value : Bytes}
    (hmem : (target, value) ∈ (n.perform operation).immutables.entries) :
    (target, value) ∈ n.immutables.entries ∨ immutableTarget value = target := by
  rw [(n.caches_perform operation).1] at hmem
  obtain huse | hheld := RecencyCache.mem_entries_afterUse hmem
  · exact (immutableUse?_cases huse).imp_left RecencyCache.mem_entries_of_peek?
  · exact .inl hheld

@[simp] theorem capacity_mutables_perform (n : StorageNode) (operation : Operation) :
    (n.perform operation).mutables.capacity = n.mutables.capacity := by
  rw [(n.caches_perform operation).2, RecencyCache.capacity_afterUse]

theorem Fits.perform (hfits : n.Fits) (operation : Operation) : (n.perform operation).Fits := by
  obtain ⟨himmutables, hmutables⟩ := n.caches_perform operation
  exact ⟨himmutables ▸ hfits.immutables.afterUse _, hmutables ▸ hfits.mutables.afterUse _⟩

/-- A node that began with nothing, after any operations. -/
def Arises (n : StorageNode) : Prop :=
  ∃ id address secrets operations, n = (create id address secrets).after operations

/-- What every operation keeps stands after all of them. -/
theorem after_induction {P : StorageNode → Prop} (hn : P n)
    (hkeep : ∀ m operation, operation ∈ operations → P m → P (m.perform operation)) :
    P (n.after operations) :=
  List.foldlRecOn operations perform hn fun m hm operation hmem => hkeep m operation hmem hm

@[simp] theorem capacity_mutables_after (n : StorageNode) (operations : List Operation) :
    (n.after operations).mutables.capacity = n.mutables.capacity :=
  after_induction (P := fun m => m.mutables.capacity = n.mutables.capacity) rfl
    fun m operation _ hm => (m.capacity_mutables_perform operation).trans hm

theorem Arises.capacity_mutables (harises : n.Arises) : n.mutables.capacity = maxValues := by
  obtain ⟨id, address, secrets, operations, rfl⟩ := harises
  exact capacity_mutables_after (create id address secrets) operations

theorem Arises.fits (harises : n.Arises) : n.Fits := by
  obtain ⟨id, address, secrets, operations, rfl⟩ := harises
  exact after_induction (Fits.create id address secrets) fun _ operation _ hm => hm.perform operation

/-- Mutable items stand at their own targets, and have all properties of those that are given to the node. -/
theorem forall_mutables_after {P : MutableItem → Prop}
    (hn : ∀ entry ∈ n.mutables.entries, entry.2.target = entry.1 ∧ P entry.2)
    (hgiven : ∀ m, ∀ operation ∈ operations, ∀ item, operation.given? m = some (.mutable item) → P item) :
    ∀ entry ∈ (n.after operations).mutables.entries, entry.2.target = entry.1 ∧ P entry.2 := by
  refine after_induction (P := fun m => ∀ entry ∈ m.mutables.entries, entry.2.target = entry.1 ∧ P entry.2) hn ?_
  intro m operation hoperation hm entry hmem
  obtain hold | ⟨hnew, htarget⟩ := mem_mutables_perform hmem
  · exact hm entry hold
  · exact ⟨htarget, hgiven m operation hoperation entry.2 hnew⟩

theorem Arises.target_mutables (harises : n.Arises) :
    ∀ entry ∈ n.mutables.entries, entry.2.target = entry.1 := by
  obtain ⟨id, address, secrets, operations, rfl⟩ := harises
  intro entry hmem
  exact (forall_mutables_after (P := fun _ => True) (List.forall_mem_nil _) (fun _ _ _ _ _ => trivial)
    entry hmem).1

theorem Arises.target_immutables (harises : n.Arises) :
    ∀ entry ∈ n.immutables.entries, immutableTarget entry.2 = entry.1 := by
  obtain ⟨id, address, secrets, operations, rfl⟩ := harises
  refine after_induction (P := fun m => ∀ entry ∈ m.immutables.entries, immutableTarget entry.2 = entry.1)
    (List.forall_mem_nil _) fun m operation _ hm entry hmem => ?_
  obtain hold | htarget := mem_immutables_perform hmem
  · exact hm entry hold
  · exact htarget

end StorageNode

end DhtStore
