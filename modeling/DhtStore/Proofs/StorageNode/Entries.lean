import DhtStore.Proofs.Client.Get
import DhtStore.Proofs.StorageNode.Operations

namespace DhtStore

namespace MutableItem

/-- An item that a node may hold: neither its value nor its salt is too big, and its signature verifies. -/
structure IsStorable (item : MutableItem) : Prop where
  value : item.value.length ≤ StorageNode.maxValueSize
  salt : (item.salt.getD []).length ≤ StorageNode.maxSaltSize
  verifies : Ed25519.verifies item.key.bytes (signable item.seq item.value item.salt) item.signature.bytes = true

/-- The target of an item is that of its key and its salt. -/
def IsAtHome (item : MutableItem) : Prop := mutableTarget item.key.bytes item.salt = item.target

end MutableItem

namespace StorageNode

variable {n : StorageNode} {item : MutableItem}

/-- A node after some puts, one after the other, each by a requester. -/
def afterPuts (n : StorageNode) (puts : List (Address × PutRequest)) : StorageNode :=
  n.after (puts.map fun put => .put put.1 put.2)

/-- Each mutable item that puts leave at an empty node was sent to it, is storable and stands at its own
    target. -/
theorem mem_mutables_afterPuts (id : NodeId) (address : Address) (secrets : TokenSecrets)
    (puts : List (Address × PutRequest)) :
    ∀ entry ∈ ((create id address secrets).afterPuts puts).mutables.entries,
      entry.2.target = entry.1 ∧ entry.2.IsStorable ∧ ∃ put ∈ puts, put.2.item = .mutable entry.2 := by
  refine forall_mutables_after
    (P := fun item => item.IsStorable ∧ ∃ put ∈ puts, put.2.item = .mutable item) (List.forall_mem_nil _) ?_
  intro m operation hoperation item hgiven
  obtain ⟨put, hput, rfl⟩ := List.mem_map.1 hoperation
  obtain ⟨requester, request, hsame, hitem, haccepts⟩ | hstore := exists_of_given hgiven
  · cases hsame
    obtain ⟨hvalue, hsalt, hverifies, -⟩ := haccepts
    exact ⟨⟨hvalue, hsalt, hverifies⟩, put, hput, hitem⟩
  · cases hstore

/-- A single put is enough for an empty node to hold an item that is storable. -/
theorem handlePut_of_isStorable (id : NodeId) (address : Address) (secrets : TokenSecrets)
    (requester : Address) (hstorable : item.IsStorable) :
    (create id address secrets).handlePut requester ⟨secrets.generate requester, .mutable item⟩ =
      (.ok (), (create id address secrets).store (.mutable item)) := by
  have haccepts : (create id address secrets).Accepts (.mutable item) :=
    ⟨hstorable.value, hstorable.salt, hstorable.verifies, nofun⟩
  exact handlePut_of_accepts nofun haccepts

/-- Whatever is put to an empty node, each mutable item that it holds verifies, is of admissible size and stands
    at its own target. But all items that it ever holds are at home there exactly if all those are that are
    storable and may be sent to it. -/
theorem genuine_entries_iff (id : NodeId) (address : Address) (secrets : TokenSecrets) :
    (∀ puts, ∀ entry ∈ ((create id address secrets).afterPuts puts).mutables.entries,
      entry.2.target = entry.1 ∧ entry.2.IsStorable ∧ ∃ put ∈ puts, put.2.item = .mutable entry.2) ∧
    ∀ sent : MutableItem → Prop,
      (∀ puts, (∀ put ∈ puts, ∀ item, put.2.item = .mutable item → sent item) →
        ∀ entry ∈ ((create id address secrets).afterPuts puts).mutables.entries,
          mutableTarget entry.2.key.bytes entry.2.salt = entry.1) ↔
      ∀ item, sent item → item.IsStorable → item.IsAtHome := by
  have hentries := mem_mutables_afterPuts id address secrets
  refine ⟨hentries, fun sent => ⟨fun hgenuine item hsent hstorable => ?_, ?_⟩⟩
  · refine hgenuine [(default, ⟨secrets.generate default, .mutable item⟩)] ?_ (item.target, item) ?_
    · intro put hput other hother
      obtain rfl := List.mem_singleton.1 hput
      cases hother
      exact hsent
    · have hput := handlePut_of_isStorable id address secrets default hstorable
      rw [afterPuts, List.map_singleton, after, List.foldl_cons, perform, hput]
      exact List.mem_cons_self
  · intro hhome puts hputs entry hmem
    obtain ⟨htarget, hstorable, put, hput, hitem⟩ := hentries puts entry hmem
    rw [← htarget]
    exact hhome entry.2 (hputs put hput entry.2 hitem) hstorable

/-- An item with a genuine signature is held, and served, at a target that belongs to another key. -/
theorem foreign_item_held :
    let target := mutableTarget (default : PublicKey).bytes none
    let item := { MutableItem.sample with target }
    let n := create default default ⟨default, default⟩
    let after := n.afterPuts [(default, ⟨n.secrets.generate default, .mutable item⟩)]
    MutableItem.verified target item.key.bytes item.value item.seq item.signature.bytes item.salt = .ok item ∧
      (n.handlePut default ⟨n.secrets.generate default, .mutable item⟩).1 = .ok () ∧
      (target, item) ∈ after.mutables.entries ∧
      (after.handleGet default ⟨target, none⟩ []).1.Carries (.mutable item) ∧
      mutableTarget item.key.bytes item.salt ≠ target := by
  intro target item n after
  have hverifies : Ed25519.verifies item.key.bytes (signable item.seq item.value item.salt)
      item.signature.bytes = true := by
    decide +kernel
  have hstorable : item.IsStorable := ⟨by decide, by decide, hverifies⟩
  have hput := handlePut_of_isStorable default default ⟨default, default⟩ default hstorable
  have hafter : after = n.store (.mutable item) := congrArg Prod.snd hput
  rw [hafter]
  refine ⟨MutableItem.verified_eq_ok_iff.2 ⟨rfl, rfl, rfl, rfl, rfl, rfl, hverifies⟩, congrArg Prod.fst hput,
    List.mem_cons_self, ?_, by decide +kernel⟩
  change _ = _ ∧ _ = _ ∧ _ = _ ∧ _ = _
  decide +kernel

end StorageNode

end DhtStore
