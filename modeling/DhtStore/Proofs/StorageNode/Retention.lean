import DhtStore.Proofs.RecencyCache.Recency
import DhtStore.Proofs.StorageNode.Operations

namespace DhtStore

namespace StorageNode

open RecencyCache

/-- What each of some operations does to a node when its turn comes, those left out that do nothing. -/
def course {α : Type} (effect? : StorageNode → Operation → Option α) (n : StorageNode) :
    List Operation → List α
  | [] => []
  | operation :: operations =>
    (effect? n operation).toList ++ (n.perform operation).course effect? operations

theorem course_concat {α : Type} (effect? : StorageNode → Operation → Option α) (n : StorageNode)
    (operations : List Operation) (operation : Operation) :
    n.course effect? (operations ++ [operation]) =
      n.course effect? operations ++ (effect? (n.after operations) operation).toList := by
  induction operations generalizing n with
  | nil => exact List.append_nil _
  | cons first operations ih =>
    rw [List.cons_append, course, ih, course, List.append_assoc]
    rfl

/-- The item that an operation asks a node to hold, whether or not the node agrees to it. -/
def Operation.offered? : Operation → Option Item
  | put _ request => some request.item
  | store item => some item
  | _ => none

/-- One of the two caches of a node, with the entry that an item makes in it and the target at which an operation
    looks for an entry. An operation uses the entry that it gives to the node, or else the one that it finds, and
    does nothing else to the cache. -/
structure Shelf (ν : Type) where
  cache : StorageNode → RecencyCache NodeId ν
  ofItem? : Item → Option (NodeId × ν)
  sought? : StorageNode → Operation → Option NodeId
  operated (n : StorageNode) (operation : Operation) : cache (n.perform operation) = (cache n).afterUse
    ((operation.given? n).elim ((sought? n operation).bind (RecencyCache.entry? <| cache n)) ofItem?)

namespace Shelf

def immutables : Shelf Bytes where
  cache := StorageNode.immutables
  ofItem?
    | .immutable value => some (immutableTarget value, value)
    | .mutable _ => none
  sought? _ operation := operation.immutableSought?
  operated n operation := by
    rw [(n.caches_perform operation).1, Operation.immutableUse?]
    split
    all_goals
      next hgiven =>
      rw [hgiven]
      rfl

def mutables : Shelf MutableItem where
  cache := StorageNode.mutables
  ofItem?
    | .immutable _ => none
    | .mutable item => some (item.target, item)
  sought? n operation := operation.mutableSought? n
  operated n operation := by
    rw [(n.caches_perform operation).2, Operation.mutableUse?]
    split
    all_goals
      next hgiven =>
      rw [hgiven]
      rfl

/-- The entry that an operation gives to a node: of what it stores, or puts and the node acknowledges. -/
def given? {ν : Type} (shelf : Shelf ν) (n : StorageNode) (operation : Operation) : Option (NodeId × ν) :=
  (operation.given? n).bind shelf.ofItem?

/-- The entry that an operation uses: one that it gives to the node, or one that it finds there. -/
def used? {ν : Type} (shelf : Shelf ν) (n : StorageNode) (operation : Operation) : Option (NodeId × ν) :=
  (operation.given? n).elim ((shelf.sought? n operation).bind (RecencyCache.entry? <| shelf.cache n)) shelf.ofItem?

variable {ν : Type} (shelf : Shelf ν) {n : StorageNode}

theorem cache_perform (n : StorageNode) (operation : Operation) :
    shelf.cache (n.perform operation) = (shelf.cache n).afterUse (shelf.used? n operation) :=
  shelf.operated n operation

theorem cache_after (n : StorageNode) (operations : List Operation) :
    shelf.cache (n.after operations) = (shelf.cache n).afterUses (n.course shelf.used? operations) := by
  induction operations generalizing n with
  | nil => rfl
  | cons operation operations ih =>
    rw [after, List.foldl_cons, ← after, ih, cache_perform, course]
    cases shelf.used? n operation <;> rfl

theorem given?_of_unused {operation : Operation} (hunused : shelf.used? n operation = none) :
    shelf.given? n operation = none := by
  unfold used? at hunused
  unfold given?
  cases hgiven : operation.given? n with
  | none => rfl
  | some item => rwa [hgiven] at hunused

theorem given?_or_held {operation : Operation} {entry : NodeId × ν} (hused : shelf.used? n operation = some entry) :
    shelf.given? n operation = some entry ∨
      shelf.given? n operation = none ∧ (shelf.cache n).peek? entry.1 = some entry.2 := by
  unfold used? at hused
  unfold given?
  cases hgiven : operation.given? n with
  | some item =>
    rw [hgiven] at hused
    exact .inl hused
  | none =>
    rw [hgiven] at hused
    obtain ⟨target, -, hfound⟩ := Option.bind_eq_some_iff.1 hused
    exact .inr ⟨rfl, peek?_of_entry? hfound⟩

/-- What is found at a target is what was given last for it, so to find it does not change which value came last. -/
theorem last?_used (hempty : (shelf.cache n).entries = []) (operations : List Operation) (target : NodeId) :
    last? target (n.course shelf.used? operations) = last? target (n.course shelf.given? operations) := by
  induction operations using List.reverseRecOn with
  | nil => rfl
  | append_singleton operations operation ih =>
    rw [course_concat, course_concat]
    cases hused : shelf.used? (n.after operations) operation with
    | none =>
      have hgiven := shelf.given?_of_unused hused
      rw [hgiven, Option.toList_none, List.append_nil, List.append_nil, ih]
    | some entry =>
      obtain hgiven | ⟨hgiven, hheld⟩ := shelf.given?_or_held hused
      · rw [hgiven, Option.toList_some, last?_concat, last?_concat, ih]
      · rw [hgiven, Option.toList_none, List.append_nil, Option.toList_some, last?_concat, ih]
        split
        · next hsame =>
          rw [shelf.cache_after, peek?_afterUses hempty, hsame, ih] at hheld
          exact ((Option.ite_none_right_eq_some ..).1 hheld).2.symm
        · rfl

theorem entries_after (hempty : (shelf.cache n).entries = []) (operations : List Operation) :
    (shelf.cache (n.after operations)).entries =
      (recency (n.course shelf.used? operations)).take (shelf.cache n).capacity := by
  rw [shelf.cache_after]
  exact (entries_afterUses hempty _).2

/-- There is at most one entry for each target, and room for all entries. -/
theorem bounded_after (hempty : (shelf.cache n).entries = []) (operations : List Operation) :
    (shelf.cache (n.after operations)).entries.length ≤ (shelf.cache n).capacity ∧
      ((shelf.cache (n.after operations)).entries.map Prod.fst).Nodup := by
  rw [shelf.entries_after hempty]
  exact ⟨List.length_take_le .., (nodup_recency _).sublist ((List.take_sublist ..).map Prod.fst)⟩

/-- A value is held as it was given last, until too many others were used. -/
theorem peek?_after (hempty : (shelf.cache n).entries = []) (operations : List Operation) (target : NodeId) :
    (shelf.cache (n.after operations)).peek? target =
      if (keysSince target (n.course shelf.used? operations)).card < (shelf.cache n).capacity then
        last? target (n.course shelf.given? operations)
      else none := by
  rw [shelf.cache_after, peek?_afterUses hempty, shelf.last?_used hempty]

end Shelf

variable {n : StorageNode} {operation : Operation}

theorem mutables_perform_of_immutable {value : Bytes} (hoffered : operation.offered? = some (.immutable value)) :
    (n.perform operation).mutables = n.mutables := by
  cases operation with
  | put requester request =>
    obtain ⟨token, item⟩ := request
    cases hoffered
    simp only [perform, handlePut]
    split
    · rfl
    split
    · rfl
    split <;> rfl
  | store item =>
    cases hoffered
    rfl
  | _ => cases hoffered

theorem immutables_perform_of_mutable {item : MutableItem}
    (hoffered : operation.offered? = some (.mutable item)) :
    (n.perform operation).immutables = n.immutables := by
  cases operation with
  | put requester request =>
    obtain ⟨token, item⟩ := request
    cases hoffered
    obtain ⟨-, hput⟩ | hput | ⟨refusal, -, hput⟩ := n.handlePut_cases requester ⟨token, .mutable item⟩
    all_goals exact congrArg (·.2.immutables) hput
  | store item =>
    cases hoffered
    rfl
  | _ => cases hoffered

/-- Whatever is done to a node that began with nothing, each of its caches holds a thousand entries at most, for
    distinct targets. It holds at a target what it was last given there as long as fewer than a thousand other
    targets of that kind were used since this one was, and nothing from then on. And items of one kind that are put
    or stored do not touch what it holds of the other. -/
theorem held_until_crowded_out (id : NodeId) (address : Address) (secrets : TokenSecrets) (operations : List Operation) :
    let empty := create id address secrets
    let n := empty.after operations
    (n.immutables.entries.length ≤ maxValues ∧ (n.immutables.entries.map Prod.fst).Nodup) ∧
    (n.mutables.entries.length ≤ maxValues ∧ (n.mutables.entries.map Prod.fst).Nodup) ∧
    (∀ target, n.immutables.peek? target =
      if (keysSince target (empty.course Shelf.immutables.used? operations)).card < maxValues then
        last? target (empty.course Shelf.immutables.given? operations)
      else none) ∧
    (∀ target, n.mutables.peek? target =
      if (keysSince target (empty.course Shelf.mutables.used? operations)).card < maxValues then
        last? target (empty.course Shelf.mutables.given? operations)
      else none) ∧
    ∀ stores : List Operation,
      ((∀ operation ∈ stores, ∃ value, operation.offered? = some (.immutable value)) →
        (n.after stores).mutables = n.mutables) ∧
      ((∀ operation ∈ stores, ∃ item, operation.offered? = some (.mutable item)) →
        (n.after stores).immutables = n.immutables) := by
  intro empty n
  refine ⟨Shelf.immutables.bounded_after rfl operations, Shelf.mutables.bounded_after rfl operations,
    Shelf.immutables.peek?_after rfl operations, Shelf.mutables.peek?_after rfl operations,
    fun stores => ⟨fun hoffered => ?_, fun hoffered => ?_⟩⟩
  · refine after_induction (P := fun m => m.mutables = n.mutables) rfl fun m operation hmem hm => ?_
    obtain ⟨value, hvalue⟩ := hoffered operation hmem
    exact (mutables_perform_of_immutable hvalue).trans hm
  · refine after_induction (P := fun m => m.immutables = n.immutables) rfl fun m operation hmem hm => ?_
    obtain ⟨item, hitem⟩ := hoffered operation hmem
    exact (immutables_perform_of_mutable hitem).trans hm

end StorageNode

end DhtStore
