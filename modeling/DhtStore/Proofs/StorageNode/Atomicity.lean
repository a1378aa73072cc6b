import DhtStore.Proofs.StorageNode.Operations

namespace DhtStore

namespace StorageNode

variable {n : StorageNode}

/-- A node whose caches are sound. -/
structure Sound (n : StorageNode) : Prop where
  immutables : n.immutables.Sound
  mutables : n.mutables.Sound

theorem Sound.create (id : NodeId) (address : Address) (secrets : TokenSecrets) :
    (StorageNode.create id address secrets).Sound where
  immutables := ⟨(by decide : 0 < maxValues), Nat.zero_le _, .nil⟩
  mutables := ⟨(by decide : 0 < maxValues), Nat.zero_le _, .nil⟩

theorem Sound.perform (hsound : n.Sound) (operation : Operation) : (n.perform operation).Sound := by
  obtain ⟨himmutables, hmutables⟩ := n.caches_perform operation
  exact ⟨himmutables ▸ hsound.immutables.afterUse _, hmutables ▸ hsound.mutables.afterUse _⟩

/-- Whatever is done to a node that began with nothing, its caches are sound. -/
theorem Arises.sound (harises : n.Arises) : n.Sound := by
  obtain ⟨id, address, secrets, operations, rfl⟩ := harises
  exact after_induction (Sound.create id address secrets) fun _ operation _ hm => hm.perform operation

/-- What a node becomes that stores an item. The cache for its kind receives the item, and the rest of the node is
    as it was. -/
def Stores (n : StorageNode) (item : Item) (after : StorageNode) : Prop :=
  match item with
  | .immutable value => ∃ cache, n.immutables.Receives (immutableTarget value) value cache ∧
      after = { n with immutables := cache }
  | .mutable item => ∃ cache, n.mutables.Receives item.target item cache ∧
      after = { n with mutables := cache }

/-- What a node becomes that looks at a mutable item it holds. -/
def Recalls (n : StorageNode) (target : NodeId) (after : StorageNode) : Prop :=
  ∃ held cache, n.mutables.Recalls target held cache ∧ after = { n with mutables := cache }

theorem Sound.stores (hsound : n.Sound) (item : Item) : n.Stores item (n.store item) := by
  cases item with
  | immutable value => exact ⟨_, hsound.immutables.receives_insert _ value, rfl⟩
  | mutable item => exact ⟨_, hsound.mutables.receives_insert _ item, rfl⟩

theorem Sound.holds_store (hsound : n.Sound) (item : Item) : (n.store item).Holds item.target item := by
  cases item with
  | immutable value => exact RecencyCache.peek?_insert_self _ _ value hsound.immutables.room
  | mutable item => exact RecencyCache.peek?_insert_self _ _ item hsound.mutables.room

theorem Sound.recalls (hsound : n.Sound) {target : NodeId} {held : MutableItem}
    (hheld : n.mutables.peek? target = some held) : n.Recalls target (n.useMutable target).2 :=
  ⟨held, _, hsound.mutables.recalls_use hheld, rfl⟩

/-- A node acknowledges a put exactly if it has nothing to object to; then it has stored the item. Otherwise it
    answers with the code of its first objection, and all that this changes is that it has used the item held at
    the target if that was the objection. -/
theorem handlePut_atomic (hsound : n.Sound) (requester : Address) (request : PutRequest) :
    let answer := n.handlePut requester request
    (answer.1 = .ok () ↔ ∀ refusal, ¬ n.Objects requester request refusal) ∧
    (answer.1 = .ok () →
      n.Stores request.item answer.2 ∧ answer.2.Holds request.item.target request.item) ∧
    ∀ refusal,
      (answer.1 = .error refusal ↔ n.ObjectsFirst requester request refusal) ∧
      [201, 203, 205, 207, 206, 302][refusal.turn]? = some refusal.error.code ∧
      (answer.1 = .error refusal → refusal ≠ .outdated → answer.2 = n) ∧
      (answer.1 = .error refusal → refusal = .outdated → n.Recalls request.item.target answer.2) := by
  intro answer
  have hcode (refusal : Refusal) :
      [201, 203, 205, 207, 206, 302][refusal.turn]? = some refusal.error.code := by
    cases refusal <;> rfl
  obtain ⟨hnone, hok⟩ | ⟨first, hfirst, herror⟩ := n.handlePut_spec requester request
  · have hanswer : answer = (.ok (), n.store request.item) := hok
    rw [hanswer]
    refine ⟨⟨fun _ => hnone, fun _ => rfl⟩, fun _ => ⟨hsound.stores _, hsound.holds_store _⟩, ?_⟩
    exact fun refusal => ⟨⟨nofun, fun hobjects => absurd hobjects.1 (hnone refusal)⟩, hcode refusal, nofun, nofun⟩
  · have hanswer : answer = (.error first, _) := herror
    rw [hanswer]
    refine ⟨⟨nofun, fun hnone => absurd hfirst.1 (hnone first)⟩, nofun, fun refusal => ?_⟩
    refine ⟨⟨?_, ?_⟩, hcode refusal, ?_, ?_⟩
    · rintro ⟨⟩
      exact hfirst
    · exact fun hother => congrArg Except.error (hfirst.unique hother)
    · rintro ⟨⟩ hne
      exact if_neg hne
    · rintro ⟨⟩ rfl
      obtain ⟨⟨item, held, hitem, hheld, -⟩, -⟩ := hfirst
      rw [if_pos rfl, hitem]
      exact hsound.recalls hheld

/-- A node that holds an item refuses an older one as outdated and stores a newer one. -/
theorem handlePut_atomic_sample :
    let held := MutableItem.sign default (Bytes.ofAscii "held") 7 none
    let n := (create default default ⟨default, default⟩).store (.mutable held)
    let token := n.secrets.generate default
    let older := MutableItem.sign default (Bytes.ofAscii "older") 6 none
    let newer := MutableItem.sign default (Bytes.ofAscii "newer") 8 none
    n.Sound ∧
      n.Recalls older.target (n.handlePut default ⟨token, .mutable older⟩).2 ∧
      n.Stores (.mutable newer) (n.handlePut default ⟨token, .mutable newer⟩).2 := by
  intro held n token older newer
  have hsound : n.Sound := (Sound.create default default ⟨default, default⟩).perform (.store (.mutable held))
  have holder : (n.handlePut default ⟨token, .mutable older⟩).1 = .error .outdated := by decide +kernel
  have hnewer : (n.handlePut default ⟨token, .mutable newer⟩).1 = .ok () := by decide +kernel
  obtain ⟨-, -, hrefused⟩ := handlePut_atomic hsound default ⟨token, .mutable older⟩
  obtain ⟨-, hstored, -⟩ := handlePut_atomic hsound default ⟨token, .mutable newer⟩
  exact ⟨hsound, (hrefused .outdated).2.2.2 holder rfl, (hstored hnewer).1⟩

end StorageNode

end DhtStore
