import DhtStore.Proofs.Testnet.StorageNode

namespace DhtStore

/-- The turn in which a node checks whether it has to refuse a put so. -/
def Refusal.turn : Refusal → Nat
  | unwilling => 0
  | badToken => 1
  | valueTooBig => 2
  | saltTooBig => 3
  | badSignature => 4
  | outdated => 5

theorem Refusal.eq_of_turn_eq {refusal other : Refusal} (hturn : refusal.turn = other.turn) :
    refusal = other := by
  cases refusal <;> cases other <;> first | rfl | cases hturn

namespace StorageNode

/-- A node has reason to refuse a put in some way, whether or not it has other reasons as well. -/
def Objects (n : StorageNode) (requester : Address) (request : PutRequest) : Refusal → Prop
  | .unwilling => n.behavior = .rejectWrites
  | .badToken => n.secrets.validates requester request.token = false
  | .valueTooBig => maxValueSize < request.item.value.length
  | .saltTooBig => ∃ item, request.item = .mutable item ∧ maxSaltSize < (item.salt.getD []).length
  | .badSignature => ∃ item, request.item = .mutable item ∧
      Ed25519.verifies item.key.bytes (signable item.seq item.value item.salt) item.signature.bytes = false
  | .outdated => ∃ item held, request.item = .mutable item ∧ n.mutables.peek? item.target = some held ∧
      (item.seq < held.seq ∨ item.seq = held.seq ∧ item.value ≠ held.value)

/-- A put gives a node no reason to refuse it in any of its first checks. -/
def Passes (n : StorageNode) (requester : Address) (request : PutRequest) (turns : Nat) : Prop :=
  ∀ refusal : Refusal, refusal.turn < turns → ¬ n.Objects requester request refusal

/-- A put passes all checks but one, which is the next. -/
def ObjectsFirst (n : StorageNode) (requester : Address) (request : PutRequest) (refusal : Refusal) : Prop :=
  n.Objects requester request refusal ∧ n.Passes requester request refusal.turn

variable {n : StorageNode} {requester : Address} {request : PutRequest} {refusal other : Refusal}

theorem Passes.next (hpasses : n.Passes requester request refusal.turn)
    (hnot : ¬ n.Objects requester request refusal) : n.Passes requester request (refusal.turn + 1) := by
  intro other hlt
  obtain hbefore | hlast := Nat.lt_succ_iff_lt_or_eq.1 hlt
  · exact hpasses other hbefore
  · exact Refusal.eq_of_turn_eq hlast ▸ hnot

/-- There is one first objection at most. -/
theorem ObjectsFirst.unique (hfirst : n.ObjectsFirst requester request refusal)
    (hother : n.ObjectsFirst requester request other) : refusal = other := by
  obtain hlt | heq | hgt := Nat.lt_trichotomy refusal.turn other.turn
  · exact absurd hfirst.1 (hother.2 refusal hlt)
  · exact Refusal.eq_of_turn_eq heq
  · exact absurd hother.1 (hfirst.2 other hgt)

theorem isOutdated_eq_true_iff {item held : MutableItem} :
    isOutdated item held = true ↔ item.seq < held.seq ∨ item.seq = held.seq ∧ item.value ≠ held.value := by
  simp [isOutdated]

/-- The checks of a put are all over after the last one. -/
theorem Passes.all (hpasses : n.Passes requester request (Refusal.outdated.turn + 1)) :
    ∀ refusal, ¬ n.Objects requester request refusal :=
  fun refusal => hpasses refusal (by cases refusal <;> decide)

/-- What a node makes of a mutable item once it has checked what it checks of all items. -/
theorem putMutable_spec {token : WriteToken} {item : MutableItem}
    (hpasses : n.Passes requester ⟨token, .mutable item⟩ Refusal.saltTooBig.turn) :
    ((∀ refusal, ¬ n.Objects requester ⟨token, .mutable item⟩ refusal) ∧
      n.putMutable item = (.ok (), n.store (.mutable item))) ∨
    ∃ refusal, n.ObjectsFirst requester ⟨token, .mutable item⟩ refusal ∧
      n.putMutable item =
        (.error refusal, if refusal = .outdated then (n.useMutable item.target).2 else n) := by
  unfold putMutable
  split
  · next hsalt => exact .inr ⟨.saltTooBig, ⟨⟨item, rfl, hsalt⟩, hpasses⟩, rfl⟩
  next hsalt =>
  have hsigned : n.Passes requester ⟨token, .mutable item⟩ Refusal.badSignature.turn := by
    refine hpasses.next ?_
    rintro ⟨_, hitem, hbig⟩
    cases hitem
    exact hsalt hbig
  split
  · next error herror =>
    refine .inr ⟨.badSignature, ⟨⟨item, rfl, Bool.eq_false_iff.2 fun hverifies => ?_⟩, hsigned⟩, rfl⟩
    have hverified := MutableItem.verified_eq_ok_iff.2 ⟨rfl, rfl, rfl, rfl, rfl, rfl, hverifies⟩
    cases herror.symm.trans hverified
  next verified hverified =>
  have hcurrent : n.Passes requester ⟨token, .mutable item⟩ Refusal.outdated.turn := by
    refine hsigned.next ?_
    rintro ⟨_, hitem, hforged⟩
    cases hitem
    obtain ⟨-, -, -, -, -, -, hverifies⟩ := MutableItem.verified_eq_ok_iff.1 hverified
    cases hforged.symm.trans hverifies
  dsimp only
  rw [fst_useMutable]
  split
  · next houtdated =>
    obtain ⟨held, hheld, hlater⟩ := (Option.any_eq_true ..).1 houtdated
    refine .inr ⟨.outdated, ⟨⟨item, held, rfl, hheld, isOutdated_eq_true_iff.1 hlater⟩, hcurrent⟩, rfl⟩
  · next hnewer =>
    refine .inl ⟨(hcurrent.next ?_).all, ?_⟩
    · rintro ⟨_, held, hitem, hheld, hlater⟩
      cases hitem
      rw [hheld] at hnewer
      exact hnewer (isOutdated_eq_true_iff.2 hlater)
    · simp only [store, useMutable, RecencyCache.insert_use]

/-- A put is refused with the first objection that there is to it, and leaves the node as it was but for what it
    looked up; the item of a put to which there is none is stored. -/
theorem handlePut_spec (n : StorageNode) (requester : Address) (request : PutRequest) :
    ((∀ refusal, ¬ n.Objects requester request refusal) ∧
      n.handlePut requester request = (.ok (), n.store request.item)) ∨
    ∃ refusal, n.ObjectsFirst requester request refusal ∧
      n.handlePut requester request =
        (.error refusal, if refusal = .outdated then (n.useMutable request.item.target).2 else n) := by
  obtain ⟨token, item⟩ := request
  have hbegun : n.Passes requester ⟨token, item⟩ Refusal.unwilling.turn := nofun
  unfold handlePut
  split
  · next hunwilling => exact .inr ⟨.unwilling, ⟨hunwilling, hbegun⟩, rfl⟩
  next hwilling =>
  have hwelcome : n.Passes requester ⟨token, item⟩ Refusal.badToken.turn := hbegun.next hwilling
  split
  · next htoken => exact .inr ⟨.badToken, ⟨by simpa [Objects] using htoken, hwelcome⟩, rfl⟩
  next htoken =>
  have hknown : n.Passes requester ⟨token, item⟩ Refusal.valueTooBig.turn :=
    hwelcome.next (by simpa [Objects] using htoken)
  split
  · next hbig => exact .inr ⟨.valueTooBig, ⟨hbig, hknown⟩, rfl⟩
  next hsmall =>
  have hsized : n.Passes requester ⟨token, item⟩ Refusal.saltTooBig.turn := hknown.next hsmall
  cases item with
  | immutable value =>
    refine .inl ⟨fun refusal => ?_, rfl⟩
    cases refusal with
    | unwilling | badToken | valueTooBig => exact hsized _ (by decide)
    | saltTooBig | badSignature | outdated => simp [Objects]
  | mutable item => exact putMutable_spec hsized

end StorageNode

end DhtStore
