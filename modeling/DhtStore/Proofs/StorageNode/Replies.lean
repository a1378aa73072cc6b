import DhtStore.Proofs.Client.Get
import DhtStore.Proofs.StorageNode.Operations

namespace DhtStore

/-- What a reply comes to that carries an item, or none. -/
def Classification.ofItem? : Option Item → Classification
  | some (.immutable value) => immutable value
  | some (.mutable item) => mutable item
  | none => empty

/-- An item may be held at a target: this is the target of its key and salt, its signature verifies, and its
    value does not happen to hash to the target as well. -/
structure MutableItem.IsGenuineAt (item : MutableItem) (target : NodeId) : Prop where
  belongs : mutableTarget item.key.bytes item.salt = target
  verifies : Ed25519.verifies item.key.bytes (signable item.seq item.value item.salt) item.signature.bytes = true
  hash : immutableTarget item.value ≠ target

namespace StorageNode

variable {n : StorageNode} {target : NodeId} {reply : GetReply} {item : MutableItem}

theorem seq_withMutable (reply : GetReply) (hint : Option Seq) (item : MutableItem) :
    (withMutable reply hint item).seq = some item.seq := by
  unfold withMutable
  split <;> rfl

/-- A genuine item comes out of a reply as it went in, unless it is not as new as asked for. -/
theorem classify_withMutable (hblank : reply.value = none) (htarget : item.target = target)
    (hgenuine : item.IsGenuineAt target) (hint : Option Seq) :
    (withMutable reply hint item).classify target item.salt =
      if hint.any (item.seq ≤ ·) then .empty else .mutable item := by
  unfold withMutable
  split
  · simp [GetReply.classify, hblank]
  · have hdigest := congrArg NodeId.octets hgenuine.belongs
    exact GetReply.classify_eq_mutable_iff.2
      ⟨⟨rfl, rfl, rfl, rfl⟩, hgenuine.hash, htarget, rfl, hdigest, hgenuine.verifies⟩

theorem fst_item (n : StorageNode) (target : NodeId) :
    (n.item target).1 =
      match n.immutables.peek? target, n.mutables.peek? target with
      | some value, _ => some (.immutable value)
      | none, some held => some (.mutable held)
      | none, none => none := by
  have hfound : (n.useImmutable target).1 = n.immutables.peek? target := fst_useImmutable
  have hmutable : (n.useImmutable target).2.mutables = n.mutables := rfl
  unfold item
  split
  · next huse =>
    rw [huse] at hfound
    rw [← hfound]
  · next after huse =>
    rw [huse] at hfound hmutable
    have hheld : (after.useMutable target).1 = n.mutables.peek? target := by
      rw [fst_useMutable]
      exact congrArg (·.peek? target) hmutable
    change (after.useMutable target).1.map Item.mutable = _
    rw [hheld, ← hfound]
    cases n.mutables.peek? target <;> rfl

/-- What a client finds in the reply of a node that does not tamper is what the node holds: an immutable value
    first, and else the mutable item with all its fields, which is also what the node says it holds. If it asks
    for items above a sequence number only, it finds the mutable item as long as this is one of them, and always
    learns its number. -/
theorem classify_handleGet (harises : n.Arises) (hbehavior : n.behavior ≠ .corrupt)
    (hgenuine : ∀ held, n.mutables.peek? target = some held → held.IsGenuineAt target)
    (requester : Address) (nodes : List Node) :
    let salt := (n.mutables.peek? target).bind MutableItem.salt
    let reply (hint : Option Seq) := (n.handleGet requester ⟨target, hint⟩ nodes).1
    ((reply none).classify target salt =
        match n.immutables.peek? target, n.mutables.peek? target with
        | some value, _ => .immutable value
        | none, some held => .mutable held
        | none, none => .empty) ∧
      (reply none).classify target salt = .ofItem? (n.item target).1 ∧
      ∀ hint, (reply (some hint)).seq = (n.mutables.peek? target).map MutableItem.seq ∧
        (reply (some hint)).classify target salt =
          match n.mutables.peek? target with
          | some held => if hint < held.seq then .mutable held else .empty
          | none => .empty := by
  intro salt reply
  have hreply (hint : Option Seq) : reply hint = n.view.answer requester ⟨target, hint⟩ nodes :=
    (handleGet_spec harises.fits requester ⟨target, hint⟩ nodes).1
  have hmutable {held : MutableItem} (hheld : n.mutables.peek? target = some held) {blank : GetReply}
      (hblank : blank.value = none) (hint : Option Seq) :
      (withMutable blank hint held).classify target salt =
        if hint.any (held.seq ≤ ·) then .empty else .mutable held := by
    have hsalt : salt = held.salt := by simp [salt, hheld]
    have htarget := harises.target_mutables _ (RecencyCache.mem_entries_of_peek? hheld)
    rw [hsalt]
    exact classify_withMutable hblank htarget (hgenuine held hheld) hint
  have hfound : (reply none).classify target salt =
      match n.immutables.peek? target, n.mutables.peek? target with
      | some value, _ => .immutable value
      | none, some held => .mutable held
      | none, none => .empty := by
    rw [hreply, classify_answer hbehavior]
    cases himmutable : n.immutables.peek? target with
    | some value =>
      have htarget := harises.target_immutables _ (RecencyCache.mem_entries_of_peek? himmutable)
      exact GetReply.classify_eq_immutable_iff.2 ⟨rfl, htarget⟩
    | none =>
      cases hheld : n.mutables.peek? target with
      | some held => exact hmutable hheld rfl none
      | none => rfl
  refine ⟨hfound, hfound.trans ?_, fun hint => ?_⟩
  · rw [fst_item]
    cases n.immutables.peek? target <;> cases n.mutables.peek? target <;> rfl
  · have hclean : n.view.behavior ≠ .corrupt := hbehavior
    rw [hreply, View.answer, if_neg hclean]
    simp only [View.lookup, view, Option.elim_some]
    cases hheld : n.mutables.peek? target with
    | some held =>
      refine ⟨seq_withMutable .., (hmutable hheld rfl (some hint)).trans ?_⟩
      by_cases hnewer : hint < held.seq
      · simp [hnewer]
      · simp [hnewer, Int64.not_lt.1 hnewer]
    | none => exact ⟨rfl, rfl⟩

/-- A client that asks for items above 6 finds the item with the number 7; one that asks for items above 7 only
    learns this number. -/
theorem classify_handleGet_sample :
    let n := (create default default ⟨default, default⟩).store (.mutable .sample)
    let target := MutableItem.sample.target
    let reply (hint : Option Seq) := (n.handleGet default ⟨target, hint⟩ []).1
    (reply none).classify target none = .mutable .sample ∧
      (reply (some 6)).classify target none = .mutable .sample ∧
      (reply (some 7)).classify target none = .empty ∧ (reply (some 7)).seq = some 7 := by
  intro n target reply
  have hheld : n.mutables.peek? target = some .sample :=
    RecencyCache.peek?_insert_self _ target MutableItem.sample (by decide)
  have hsample : MutableItem.sample.IsGenuineAt target := ⟨rfl, by decide +kernel, by decide +kernel⟩
  have hgenuine (held : MutableItem) (hsome : n.mutables.peek? target = some held) :
      held.IsGenuineAt target := by
    cases hheld.symm.trans hsome
    exact hsample
  have harises : n.Arises := ⟨default, default, ⟨default, default⟩, [.store (.mutable .sample)], rfl⟩
  obtain ⟨hfound, -, hhinted⟩ := classify_handleGet harises nofun hgenuine default []
  have hvacant : n.immutables.peek? target = none := rfl
  rw [hheld] at hfound hhinted
  rw [hvacant] at hfound
  exact ⟨hfound, (hhinted 6).2, (hhinted 7).2, (hhinted 7).1⟩

end StorageNode

end DhtStore
