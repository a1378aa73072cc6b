import DhtStore.Proofs.Client.Get
import DhtStore.Proofs.Item.Signable
import DhtStore.StorageNode

namespace DhtStore

section Salts

theorem mutableEncoding_eq_iff (key : PublicKey) {salt salt' : Option Bytes} :
    mutableEncoding key.bytes salt = mutableEncoding key.bytes salt' ↔ salt.getD [] = salt'.getD [] := by
  rw [mutableEncoding, mutableEncoding, List.append_cancel_left_eq]

/-- Two salts count as the same where one only looks at their bytes: they are the same, or one is empty and the other
    one absent. -/
theorem getD_nil_eq_iff {salt salt' : Option Bytes} :
    salt.getD [] = salt'.getD [] ↔
      salt = salt' ∨ salt.isSome ≠ salt'.isSome ∧ salt.getD [] = [] ∧ salt'.getD [] = [] := by
  cases salt <;> cases salt' <;> simp [eq_comm]

/-- Salts share a target if they are the same, and an empty one does with none. But no signature is for two salts,
    so that of the latter two each client refuses what is stored under the other one's, unless the very signature
    verifies for both of their different buffers. -/
theorem salts_of_one_target (key : PublicKey) (salt salt' : Option Bytes) :
    (mutableEncoding key.bytes salt = mutableEncoding key.bytes salt' ↔
      salt = salt' ∨ salt.isSome ≠ salt'.isSome ∧ salt.getD [] = [] ∧ salt'.getD [] = []) ∧
    (∀ seq value, signable seq value salt = signable seq value salt' ↔ salt = salt') ∧
    ∀ (reply : GetReply) (target : NodeId) (item : MutableItem), item.key = key →
      reply.classify target salt = .mutable item →
      mutableEncoding key.bytes salt = mutableEncoding key.bytes salt' →
      (reply.classify target salt' = .mutable { item with salt := salt' } ↔
        Ed25519.verifies key.bytes (signable item.seq item.value salt') item.signature.bytes = true) := by
  refine ⟨(mutableEncoding_eq_iff key).trans getD_nil_eq_iff, fun seq value => ?_, ?_⟩
  · rw [signable_inj]
    exact ⟨fun hsame => hsame.2.2, fun hsalt => ⟨rfl, rfl, hsalt⟩⟩
  · rintro reply target item rfl hclass hshared
    obtain ⟨hcarries, hhash, htarget, -, hdigest, -⟩ := GetReply.classify_eq_mutable_iff.1 hclass
    rw [(mutableEncoding_eq_iff item.key).1 hshared] at hdigest
    constructor
    · intro hclass'
      obtain ⟨-, -, -, -, -, hverifies⟩ := GetReply.classify_eq_mutable_iff.1 hclass'
      exact hverifies
    · intro hverifies
      exact GetReply.classify_eq_mutable_iff.2 ⟨hcarries, hhash, htarget, rfl, hdigest, hverifies⟩

theorem salts_of_one_target_sample :
    let item := MutableItem.sample
    let reply := GetReply.ofMutable item
    reply.classify item.target none = .mutable item ∧
      mutableEncoding item.key.bytes none = mutableEncoding item.key.bytes (some []) ∧
      (reply.classify item.target (some []) = .mutable { item with salt := some [] } ↔
        Ed25519.verifies item.key.bytes (signable item.seq item.value (some [])) item.signature.bytes = true) := by
  intro item reply
  have hclass : reply.classify item.target none = .mutable item := GetReply.classify_sample
  have hshared : mutableEncoding item.key.bytes none = mutableEncoding item.key.bytes (some []) :=
    (mutableEncoding_eq_iff item.key).2 rfl
  exact ⟨hclass, hshared, (salts_of_one_target item.key none (some [])).2.2 reply item.target item rfl hclass hshared⟩

/-- What is stored without a salt is found without one, and refused by who asks for it with an empty salt. -/
theorem item_refused_under_empty_salt :
    let item := MutableItem.sample
    let reply := GetReply.ofMutable item
    mutableEncoding item.key.bytes none = mutableEncoding item.key.bytes (some []) ∧
      signable item.seq item.value none ≠ signable item.seq item.value (some []) ∧
      reply.classify item.target none = .mutable item ∧
      reply.classify item.target (some []) = .invalid (.unverified .signature) := by
  intro item reply
  refine ⟨(mutableEncoding_eq_iff item.key).2 rfl, fun hsame => ?_, GetReply.classify_sample, by decide +kernel⟩
  cases (signable_inj.1 hsame).2.2

end Salts

namespace Sha1

/-- Two different byte strings with one digest. -/
def Collide (bs cs : Bytes) : Prop := bs ≠ cs ∧ digest bs = digest cs

end Sha1

section Kinds

/-- The immutable value of which some bytes are the encoding. -/
def immutableValue? (bs : Bytes) : Option Bytes :=
  match bs.dropWhile Bytes.isDigit with
  | 58 :: value => if bs.takeWhile Bytes.isDigit = Bytes.ofDecimal value.length then some value else none
  | _ => none

theorem immutableValue?_eq_some_iff {bs value : Bytes} :
    immutableValue? bs = some value ↔ bs = immutableEncoding value := by
  constructor
  · intro hvalue
    unfold immutableValue? at hvalue
    split at hvalue
    · next rest hrest =>
      split at hvalue
      · next hlength =>
        cases hvalue
        rw [immutableEncoding, ← hlength, ← hrest, List.takeWhile_append_dropWhile]
      · cases hvalue
    · cases hvalue
  · rintro rfl
    have hrest : (immutableEncoding value).dropWhile Bytes.isDigit = 58 :: value := by
      rw [immutableEncoding, List.dropWhile_append_of_pos Bytes.isDigit_of_mem_ofDecimal]
      rfl
    have hlength : (immutableEncoding value).takeWhile Bytes.isDigit = Bytes.ofDecimal value.length :=
      Bytes.takeWhile_isDigit_ofDecimal _ rfl
    rw [immutableValue?, hrest]
    exact if_pos hlength

variable {key : PublicKey} {salt : Option Bytes} {value : Bytes}

theorem isDigit_head_of_overlap (hsame : mutableEncoding key.bytes salt = immutableEncoding value) :
    key.bytes.head?.any Bytes.isDigit = true := by
  rw [mutableEncoding, immutableEncoding] at hsame
  obtain ⟨digit, digits, hdigits⟩ := List.exists_cons_of_ne_nil (Bytes.ofDecimal_ne_nil value.length)
  have hdigit : Bytes.isDigit digit = true :=
    Bytes.isDigit_of_mem_ofDecimal digit (hdigits ▸ List.mem_cons_self)
  cases hkey : key.bytes with
  | nil =>
    have hlength := key.length_bytes
    rw [hkey] at hlength
    cases hlength
  | cons first rest =>
    rw [hkey, hdigits] at hsame
    obtain rfl : first = digit := (List.cons.inj hsame).1
    exact hdigit

/-- A salt that a node accepts leaves no choice for the length of the value: it has two digits. -/
theorem overlap_iff_of_short (hsalt : (salt.getD []).length ≤ StorageNode.maxSaltSize) :
    mutableEncoding key.bytes salt = immutableEncoding value ↔
      key.bytes.take 3 = Bytes.ofDecimal (29 + (salt.getD []).length) ++ [58] ∧
        value = key.bytes.drop 3 ++ salt.getD [] := by
  have hkey := key.length_bytes
  have hmutable : mutableEncoding key.bytes salt = key.bytes.take 3 ++ (key.bytes.drop 3 ++ salt.getD []) := by
    rw [mutableEncoding, ← List.append_assoc, List.take_append_drop]
  have himmutable : immutableEncoding value = Bytes.ofDecimal value.length ++ [58] ++ value := by
    rw [immutableEncoding, List.append_assoc, List.singleton_append]
  rw [StorageNode.maxSaltSize] at hsalt
  rw [hmutable, himmutable]
  constructor
  · intro hsame
    have htotal := congrArg List.length hsame
    simp only [List.length_append, List.length_take, List.length_drop, List.length_singleton, hkey] at htotal
    have hone := Bytes.length_ofDecimal_le_iff (n := value.length) (k := 1) (by decide)
    have htwo := Bytes.length_ofDecimal_le_iff (n := value.length) (k := 2) (by decide)
    have hdigits : (Bytes.ofDecimal value.length).length = 2 := by omega
    have hvalue : value.length = 29 + (salt.getD []).length := by omega
    have hfront : (key.bytes.take 3).length = (Bytes.ofDecimal value.length ++ [58]).length := by
      rw [List.length_take, List.length_append, hkey, hdigits]
      rfl
    obtain ⟨hnumber, hrest⟩ := List.append_inj hsame hfront
    rw [hvalue] at hnumber
    exact ⟨hnumber, hrest.symm⟩
  · rintro ⟨hnumber, hvalue⟩
    have hlength : value.length = 29 + (salt.getD []).length := by
      rw [hvalue, List.length_append, List.length_drop, hkey]
    rw [hlength, ← hnumber, ← hvalue]

theorem mutableTarget_eq_immutableTarget_iff :
    mutableTarget key.bytes salt = immutableTarget value ↔
      mutableEncoding key.bytes salt = immutableEncoding value ∨
        Sha1.Collide (mutableEncoding key.bytes salt) (immutableEncoding value) := by
  constructor
  · intro htarget
    by_cases hsame : mutableEncoding key.bytes salt = immutableEncoding value
    · exact .inl hsame
    · exact .inr ⟨hsame, congrArg NodeId.octets htarget⟩
  · rintro (hsame | ⟨-, hdigest⟩)
    · exact congrArg (fun bs => NodeId.mk (Sha1.digest bs)) hsame
    · exact congrArg NodeId.mk hdigest

/-- The seed of a key that begins with the characters `48:`. -/
def countingSeed : Seed := ⟨List.replicate 29 0 ++ [0x0B, 0x2D, 0xDC], rfl⟩

/-- A signed item whose key, together with the salt, is the encoding of its value. -/
def overlappingItem : MutableItem :=
  let salt := Bytes.ofAscii "nineteen-bytes-salt"
  .sign countingSeed ((Ed25519.publicKey countingSeed).bytes.drop 3 ++ salt) 1 (some salt)

theorem overlappingItem_isValidFor :
    (Item.mutable overlappingItem).IsValidFor overlappingItem.target overlappingItem.salt := by
  have hverifies : Ed25519.verifies overlappingItem.key.bytes
      (signable overlappingItem.seq overlappingItem.value overlappingItem.salt)
      overlappingItem.signature.bytes = true := by
    decide +kernel
  exact ⟨rfl, rfl, rfl, hverifies⟩

/-- What is hashed for a key and a salt is what is hashed for an immutable value if together they are the encoding of
    that value. So for a key and a salt there is one such value at most, and none unless the key begins with a digit;
    with a salt that a node accepts there is one exactly if the key begins with the number of the bytes still to come
    and a colon. A value and a key that share a target otherwise are a collision of the hash. Where the two share no
    target, no reply is valid in both ways; where they do, the immutable value prevails. -/
theorem targets_overlap_iff (key : PublicKey) (salt : Option Bytes) (value : Bytes) :
    (mutableEncoding key.bytes salt = immutableEncoding value ↔
      key.bytes.head?.any Bytes.isDigit = true ∧ immutableValue? (key.bytes ++ salt.getD []) = some value) ∧
    ((salt.getD []).length ≤ StorageNode.maxSaltSize →
      (mutableEncoding key.bytes salt = immutableEncoding value ↔
        key.bytes.take 3 = Bytes.ofDecimal (29 + (salt.getD []).length) ++ [58] ∧
          value = key.bytes.drop 3 ++ salt.getD [])) ∧
    (mutableTarget key.bytes salt = immutableTarget value ↔
      mutableEncoding key.bytes salt = immutableEncoding value ∨
        Sha1.Collide (mutableEncoding key.bytes salt) (immutableEncoding value)) ∧
    ∀ (reply : GetReply) (target : NodeId) (item : MutableItem), item.key = key → item.value = value →
      reply.Carries (.mutable item) → (Item.mutable item).IsValidFor target salt →
      ((Item.immutable value).IsValidFor target salt ↔ mutableTarget key.bytes salt = immutableTarget value) ∧
      reply.classify target salt =
        if mutableTarget key.bytes salt = immutableTarget value then .immutable value else .mutable item := by
  refine ⟨⟨fun hsame => ?_, fun hvalue => ?_⟩, overlap_iff_of_short, mutableTarget_eq_immutableTarget_iff, ?_⟩
  · exact ⟨isDigit_head_of_overlap hsame, immutableValue?_eq_some_iff.2 hsame⟩
  · exact immutableValue?_eq_some_iff.1 hvalue.2
  · rintro reply target item rfl rfl hcarries hvalid
    refine ⟨?_, GetReply.classify_of_isValidFor hcarries hvalid⟩
    rw [Item.isValidFor_immutable_iff, hvalid.mutableTarget_eq, eq_comm]

theorem targets_overlap_iff_nineteen :
    let item := overlappingItem
    let salt := Bytes.ofAscii "nineteen-bytes-salt"
    let reply := GetReply.ofMutable item
    (salt.length ≤ StorageNode.maxSaltSize ∧
      (mutableEncoding item.key.bytes (some salt) = immutableEncoding item.value ↔
        item.key.bytes.take 3 = Bytes.ofDecimal (29 + salt.length) ++ [58] ∧
          item.value = item.key.bytes.drop 3 ++ salt)) ∧
    reply.Carries (.mutable item) ∧ (Item.mutable item).IsValidFor item.target (some salt) ∧
      reply.classify item.target (some salt) =
        if mutableTarget item.key.bytes (some salt) = immutableTarget item.value then .immutable item.value
        else .mutable item := by
  intro item salt reply
  have hsalt : salt.length ≤ StorageNode.maxSaltSize := by decide
  have hcarries : reply.Carries (.mutable item) := ⟨rfl, rfl, rfl, rfl⟩
  obtain ⟨-, hshort, -, hreply⟩ := targets_overlap_iff item.key (some salt) item.value
  exact ⟨⟨hsalt, hshort hsalt⟩, hcarries, overlappingItem_isValidFor,
    (hreply reply item.target item rfl rfl hcarries overlappingItem_isValidFor).2⟩

/-- One reply may be valid in both ways: what is hashed for its key and for its value is the same, and the signature
    verifies. Then the immutable value prevails, and who asks for the mutable item does not get it. -/
theorem mutable_item_shadowed :
    let item := overlappingItem
    let reply := GetReply.ofMutable item
    let c := Client.ofLone (.after 0 (.ok reply))
    mutableEncoding item.key.bytes item.salt = immutableEncoding item.value ∧
      (Item.mutable item).IsValidFor item.target item.salt ∧
      (Item.immutable item.value).IsValidFor item.target item.salt ∧
      reply.classify item.target item.salt = .immutable item.value ∧
      (c.getMutable {} item.key item.salt none 0 ()).returned = some (0, .error .notFound) := by
  intro item reply c
  have hsame : mutableEncoding item.key.bytes item.salt = immutableEncoding item.value := by decide +kernel
  have htarget : immutableTarget item.value = item.target :=
    (mutableTarget_eq_immutableTarget_iff.2 (.inl hsame)).symm
  refine ⟨hsame, overlappingItem_isValidFor, Item.isValidFor_immutable_iff.2 htarget, ?_, by decide +kernel⟩
  exact GetReply.classify_eq_immutable_iff.2 ⟨rfl, htarget⟩

end Kinds

end DhtStore
