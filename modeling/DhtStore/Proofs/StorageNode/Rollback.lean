import DhtStore.Proofs.Client.Get
import DhtStore.Proofs.StorageNode.Operations

namespace DhtStore

/-- An item may come after another: it has a higher sequence number, or the same one and the same value. -/
def MutableItem.Succeeds (item former : MutableItem) : Prop :=
  former.seq < item.seq ∨ item.seq = former.seq ∧ item.value = former.value

namespace MutableItem.Succeeds

variable {item next former : MutableItem}

theorem refl (item : MutableItem) : item.Succeeds item := .inr ⟨rfl, rfl⟩

theorem trans (hnext : next.Succeeds item) (hitem : item.Succeeds former) : next.Succeeds former := by
  obtain hhigher | ⟨hseq, hvalue⟩ := hnext
  · obtain hlower | ⟨hsame, -⟩ := hitem
    · exact .inl (Int64.lt_trans hlower hhigher)
    · exact .inl (hsame ▸ hhigher)
  · rw [Succeeds, hseq, hvalue]
    exact hitem

end MutableItem.Succeeds

namespace StorageNode

open RecencyCache

variable {n : StorageNode} {operation : Operation} {operations : List Operation} {target : NodeId}
  {first : MutableItem} {others : Finset NodeId}

theorem isOutdated_eq_false_iff {item held : MutableItem} :
    isOutdated item held = false ↔ item.Succeeds held := by
  have hiff : isOutdated item held = false ↔
      held.seq ≤ item.seq ∧ (item.seq = held.seq → item.value = held.value) := by
    simp [isOutdated]
  rw [hiff, MutableItem.Succeeds]
  constructor
  · rintro ⟨hle, hsame⟩
    obtain hlt | heq := Int64.lt_or_eq_of_le hle
    · exact .inl hlt
    · exact .inr ⟨heq.symm, hsame heq.symm⟩
  · rintro (hlt | ⟨heq, hvalue⟩)
    · exact ⟨Int64.le_of_lt hlt, fun heq => absurd (heq ▸ hlt) Int64.lt_irrefl⟩
    · exact ⟨heq ▸ Int64.le_refl _, fun _ => hvalue⟩

/-- The targets of the mutable items that a node uses in the course of operations. -/
def mutablesUsed (n : StorageNode) : List Operation → List NodeId
  | [] => []
  | operation :: operations =>
    ((operation.mutableUse? n).map Prod.fst).toList ++ (n.perform operation).mutablesUsed operations

/-- A node holds an item that succeeds another one, and has since used mutable items at some other targets
    only. -/
def Guards (n : StorageNode) (first : MutableItem) (others : Finset NodeId) : Prop :=
  ∃ held, n.mutables.HeldBehind first.target held others ∧ held.Succeeds first

namespace Guards

/-- Whatever is done to a node other than to store an item unchecked, it keeps guarding one: items at other
    targets only come before it, and a put at its target is refused unless it succeeds the item held. -/
theorem perform (hguards : n.Guards first others) (hother : first.target ∉ others)
    (hroom : others.card < n.mutables.capacity) (hchecked : ∀ item, operation ≠ .store item)
    (hused : ∀ entry, operation.mutableUse? n = some entry → entry.1 ≠ first.target → entry.1 ∈ others) :
    (n.perform operation).Guards first others := by
  obtain ⟨held, hbehind, hsucceeds⟩ := hguards
  have hpeek := hbehind.peek? hother
  have hpositive : 0 < n.mutables.capacity := Nat.lt_of_le_of_lt (Nat.zero_le _) hroom
  rw [Guards, (n.caches_perform operation).2]
  cases huse : operation.mutableUse? n with
  | none => exact ⟨held, hbehind, hsucceeds⟩
  | some entry =>
    obtain ⟨target, item⟩ := entry
    by_cases hsame : target = first.target
    · subst hsame
      refine ⟨item, HeldBehind.insert_self n.mutables first.target item others hpositive, ?_⟩
      obtain hheld | ⟨hgiven, htarget⟩ := mutableUse?_cases huse
      · cases hpeek.symm.trans hheld
        exact hsucceeds
      · obtain ⟨-, -, -, -, haccepts⟩ | hstore := exists_of_given hgiven
        · obtain ⟨-, -, -, hcurrent⟩ := haccepts
          exact (isOutdated_eq_false_iff.1 (hcurrent held (htarget ▸ hpeek))).trans hsucceeds
        · exact absurd hstore (hchecked _)
    · exact ⟨held, hbehind.insert_other hother hroom (hused _ huse hsame), hsucceeds⟩

theorem after (hguards : n.Guards first others) (hother : first.target ∉ others)
    (hroom : others.card < n.mutables.capacity) (hchecked : ∀ item, .store item ∉ operations)
    (hused : ∀ used ∈ n.mutablesUsed operations, used ≠ first.target → used ∈ others) :
    (n.after operations).Guards first others := by
  induction operations generalizing n with
  | nil => exact hguards
  | cons operation operations ih =>
    obtain ⟨hfirst, hrest⟩ := List.forall_mem_append.1 hused
    refine ih (hguards.perform hother hroom ?_ ?_) ?_ ?_ hrest
    · exact fun item heq => hchecked item (heq ▸ List.mem_cons_self)
    · intro entry huse
      exact hfirst entry.1 (by simp [huse])
    · rwa [capacity_mutables_perform]
    · exact fun item hmem => hchecked item (List.mem_cons_of_mem _ hmem)

end Guards

/-- Once a node has acknowledged an item, it acknowledges another one at its target only if that succeeds it, as
    long as it uses fewer items at other targets in between than it has room for. So it never acknowledges two
    values with the same sequence number. -/
theorem no_rollback {n acknowledged : StorageNode} {between : List Operation}
    {requester nextRequester : Address} {token nextToken : WriteToken} {first next : MutableItem}
    (harises : n.Arises)
    (hfirst : n.handlePut requester ⟨token, .mutable first⟩ = (.ok (), acknowledged))
    (hchecked : ∀ item, .store item ∉ between)
    (hfew : ((acknowledged.mutablesUsed between).toFinset.erase first.target).card < maxValues)
    (hnext : ((acknowledged.after between).handlePut nextRequester ⟨nextToken, .mutable next⟩).1 = .ok ())
    (hsame : next.target = first.target) :
    next.Succeeds first ∧ (next.seq = first.seq → next.value = first.value) := by
  let others := (acknowledged.mutablesUsed between).toFinset.erase first.target
  have hother : first.target ∉ others := Finset.notMem_erase _ _
  have hsucceeds : next.Succeeds first := by
    obtain ⟨-, rfl⟩ := handlePut_of_ok hfirst
    have hcapacity : (n.store (.mutable first)).mutables.capacity = maxValues := harises.capacity_mutables
    have hguards : (n.store (.mutable first)).Guards first others :=
      ⟨first, HeldBehind.insert_self n.mutables first.target first others
        (harises.capacity_mutables ▸ (by decide)), .refl first⟩
    have hused (used : NodeId) (hmem : used ∈ (n.store (.mutable first)).mutablesUsed between)
        (hne : used ≠ first.target) : used ∈ others :=
      Finset.mem_erase.2 ⟨hne, List.mem_toFinset.2 hmem⟩
    obtain ⟨held, hbehind, hheld⟩ := hguards.after hother (hcapacity ▸ hfew) hchecked hused
    obtain ⟨⟨-, -, -, hcurrent⟩, -⟩ := handlePut_of_ok (Prod.ext hnext rfl)
    have hpeek := hbehind.peek? hother
    exact (isOutdated_eq_false_iff.1 (hcurrent held (hsame ▸ hpeek))).trans hheld
  refine ⟨hsucceeds, fun hseq => ?_⟩
  obtain hhigher | ⟨-, hvalue⟩ := hsucceeds
  · exact absurd (hseq ▸ hhigher) Int64.lt_irrefl
  · exact hvalue

/-- A newer item takes the place of one that was looked for in the meantime. -/
theorem no_rollback_newer :
    let n := create default default ⟨default, default⟩
    let token := n.secrets.generate default
    let acknowledged := n.store (.mutable .sample)
    let between := [.get default ⟨MutableItem.sample.target, none⟩ [], .inspect default]
    let next := MutableItem.sign default (Bytes.ofAscii "newer") 8 none
    n.handlePut default ⟨token, .mutable .sample⟩ = (.ok (), acknowledged) ∧
      ((acknowledged.after between).handlePut default ⟨token, .mutable next⟩).1 = .ok () ∧
      next.Succeeds .sample := by
  intro n token acknowledged between next
  have hverifies : Ed25519.verifies MutableItem.sample.key.bytes
      (signable MutableItem.sample.seq MutableItem.sample.value MutableItem.sample.salt)
      MutableItem.sample.signature.bytes = true := by
    decide +kernel
  have hvacant : n.mutables.peek? MutableItem.sample.target = none := rfl
  have haccepts : n.Accepts (.mutable .sample) :=
    ⟨by decide, by decide, hverifies, fun held hheld => nomatch hvacant.symm.trans hheld⟩
  have hfirst : n.handlePut default ⟨token, .mutable .sample⟩ = (.ok (), acknowledged) :=
    handlePut_of_accepts nofun haccepts
  have hnext : ((acknowledged.after between).handlePut default ⟨token, .mutable next⟩).1 = .ok () := by
    decide +kernel
  have hfew : ((acknowledged.mutablesUsed between).toFinset.erase MutableItem.sample.target).card <
      maxValues := by
    decide +kernel
  have hchecked (item : Item) : .store item ∉ between := by simp [between]
  have harises : n.Arises := ⟨default, default, ⟨default, default⟩, [], rfl⟩
  have hsame : next.target = MutableItem.sample.target := by
    simp only [next, MutableItem.sample, MutableItem.sign, MutableItem.ofSigned]
  obtain ⟨hsucceeds, -⟩ := no_rollback harises hfirst hchecked hfew hnext hsame
  exact ⟨hfirst, hnext, hsucceeds⟩

end StorageNode

end DhtStore
