import DhtStore.Classification

namespace DhtStore

/-- An item may be accepted at a target with a salt: the hash of its value is the target, or the hash
    of its key and the salt is and its signature verifies under that key. -/
def Item.IsValidFor (target : NodeId) (salt : Option Bytes) : Item → Prop
  | .immutable value => Sha1.digest (Bytes.ofDecimal value.length ++ 58 :: value) = target.octets
  | .mutable item =>
    item.target = target ∧ item.salt = salt ∧
      Sha1.digest (item.key.bytes ++ salt.getD []) = target.octets ∧
      Ed25519.verifies item.key.bytes (signable item.seq item.value salt) item.signature.bytes = true

theorem Item.isValidFor_immutable_iff {target : NodeId} {salt : Option Bytes} {value : Bytes} :
    (Item.immutable value).IsValidFor target salt ↔ immutableTarget value = target :=
  ⟨congrArg NodeId.mk, congrArg NodeId.octets⟩

theorem Item.IsValidFor.mutableTarget_eq {target : NodeId} {salt : Option Bytes} {item : MutableItem}
    (hvalid : (Item.mutable item).IsValidFor target salt) : mutableTarget item.key.bytes salt = target :=
  congrArg NodeId.mk hvalid.2.2.1

/-- All fields of an item that travel in a reply are those of one reply. -/
def GetReply.Carries (reply : GetReply) : Item → Prop
  | .immutable value => reply.value = some value
  | .mutable item =>
    reply.value = some item.value ∧ reply.key = some item.key ∧ reply.seq = some item.seq ∧
      reply.signature = some item.signature

theorem Ed25519.isPublicKey_of_verifies {key message signature : Bytes}
    (hverifies : verifies key message signature = true) : isPublicKey key = true := by
  unfold verifies at hverifies
  unfold isPublicKey
  cases hpoint : Point.ofBytes? key with
  | none => simp [hpoint] at hverifies
  | some point => rfl

/-- Verification accepts exactly the fields of an item whose signature verifies. It does not ask whose
    the target is. -/
theorem MutableItem.verified_eq_ok_iff {target : NodeId} {key value signature : Bytes} {seq : Seq}
    {salt : Option Bytes} {item : MutableItem} :
    MutableItem.verified target key value seq signature salt = .ok item ↔
      item.target = target ∧ item.key.bytes = key ∧ item.value = value ∧ item.seq = seq ∧
        item.signature.bytes = signature ∧ item.salt = salt ∧
        Ed25519.verifies key (signable seq value salt) signature = true := by
  constructor
  · intro hverified
    cases hkey : (Octets.ofBytes? key : Option PublicKey) with
    | none => simp [MutableItem.verified, hkey] at hverified
    | some octets =>
      obtain rfl := Octets.ofBytes?_eq_some_iff.1 hkey
      cases hsignature : (Octets.ofBytes? signature : Option Signature) with
      | none =>
        simp only [MutableItem.verified, hkey, hsignature] at hverified
        split at hverified <;> cases hverified
      | some signed =>
        obtain rfl := Octets.ofBytes?_eq_some_iff.1 hsignature
        simp only [MutableItem.verified, hkey, hsignature] at hverified
        split at hverified
        · cases hverified
        · split at hverified
          · next hverifies =>
            cases hverified
            exact ⟨rfl, rfl, rfl, rfl, rfl, rfl, hverifies⟩
          · cases hverified
  · obtain ⟨itemTarget, itemKey, itemSeq, itemValue, itemSignature, itemSalt⟩ := item
    rintro ⟨rfl, rfl, rfl, rfl, rfl, rfl, hverifies⟩
    have hkey : Octets.ofBytes? itemKey.bytes = some itemKey := Octets.ofBytes?_eq_some_iff.2 rfl
    have hsignature : Octets.ofBytes? itemSignature.bytes = some itemSignature :=
      Octets.ofBytes?_eq_some_iff.2 rfl
    simp [MutableItem.verified, hkey, hsignature, hverifies, Ed25519.isPublicKey_of_verifies hverifies]

namespace GetReply

variable {reply : GetReply} {target : NodeId} {salt : Option Bytes}

theorem classify_eq_immutable_iff {value : Bytes} :
    reply.classify target salt = .immutable value ↔
      reply.value = some value ∧ immutableTarget value = target := by
  cases hvalue : reply.value with
  | none => simp [classify, hvalue]
  | some held =>
    by_cases hhash : immutableTarget held = target
    · simp only [classify, hvalue, hhash, if_true, Classification.immutable.injEq, Option.some_inj]
      exact ⟨fun heq => ⟨heq, heq ▸ hhash⟩, And.left⟩
    · simp only [classify, hvalue, hhash, if_false, Option.some_inj]
      constructor
      · intro hclass
        split at hclass
        · split at hclass
          · cases hclass
          · split at hclass <;> cases hclass
        · cases hclass
      · rintro ⟨rfl, hsame⟩
        exact absurd hsame hhash

/-- A reply carries a valid mutable item if its value does not hash to the target, and its other
    fields vouch for it. -/
theorem classify_eq_mutable_iff {item : MutableItem} :
    reply.classify target salt = .mutable item ↔
      reply.Carries (.mutable item) ∧ immutableTarget item.value ≠ target ∧
        (Item.mutable item).IsValidFor target salt := by
  have hkeyTarget (key : PublicKey) : mutableTarget key.bytes salt = target ↔
      Sha1.digest (key.bytes ++ salt.getD []) = target.octets := by
    obtain ⟨octets⟩ := target
    exact NodeId.mk.injEq _ _ ▸ Iff.rfl
  constructor
  · intro hclass
    unfold classify at hclass
    split at hclass
    · cases hclass
    · next value hvalue =>
      split at hclass
      · cases hclass
      · next hhash =>
        split at hclass
        · next key seq signature hkey hseq hsignature =>
          split at hclass
          · cases hclass
          · next hmatch =>
            split at hclass
            · next found hverified =>
              cases hclass
              obtain ⟨htarget, hkeyBytes, rfl, rfl, hsignatureBytes, hsalt, hverifies⟩ :=
                MutableItem.verified_eq_ok_iff.1 hverified
              obtain rfl : item.key = key := Octets.ext hkeyBytes
              obtain rfl : item.signature = signature := Octets.ext hsignatureBytes
              exact ⟨⟨hvalue, hkey, hseq, hsignature⟩, hhash, htarget, hsalt,
                (hkeyTarget _).1 (Decidable.not_not.1 hmatch), hverifies⟩
            · cases hclass
        · cases hclass
  · rintro ⟨⟨hvalue, hkey, hseq, hsignature⟩, hhash, htarget, hsalt, hdigest, hverifies⟩
    have hverified := MutableItem.verified_eq_ok_iff.2
      ⟨htarget, rfl, rfl, rfl, rfl, hsalt, hverifies⟩
    simp [classify, hvalue, hkey, hseq, hsignature, hhash, (hkeyTarget item.key).2 hdigest, hverified]

/-- A reply with a valid mutable item is taken for an immutable value if it is valid as such too. -/
theorem classify_of_isValidFor {item : MutableItem} (hcarries : reply.Carries (.mutable item))
    (hvalid : (Item.mutable item).IsValidFor target salt) :
    reply.classify target salt =
      if mutableTarget item.key.bytes salt = immutableTarget item.value then .immutable item.value
      else .mutable item := by
  rw [hvalid.mutableTarget_eq]
  split
  · next hhash => exact classify_eq_immutable_iff.2 ⟨hcarries.1, hhash.symm⟩
  · next hhash => exact classify_eq_mutable_iff.2 ⟨hcarries, Ne.symm hhash, hvalid⟩

/-- Every item that is found in a reply is valid, and all of it comes from that reply. -/
theorem valid_of_item?_classify {item : Item} (hitem : (reply.classify target salt).item? = some item) :
    item.IsValidFor target salt ∧ reply.Carries item := by
  cases hclass : reply.classify target salt with
  | immutable value =>
    rw [hclass] at hitem
    cases hitem
    obtain ⟨hvalue, rfl⟩ := classify_eq_immutable_iff.1 hclass
    exact ⟨rfl, hvalue⟩
  | mutable held =>
    rw [hclass] at hitem
    cases hitem
    obtain ⟨hcarries, _, hvalid⟩ := classify_eq_mutable_iff.1 hclass
    exact ⟨hvalid, hcarries⟩
  | invalid fault => simp [hclass, Classification.item?] at hitem
  | empty => simp [hclass, Classification.item?] at hitem

end GetReply

end DhtStore
