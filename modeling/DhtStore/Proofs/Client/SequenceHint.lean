import DhtStore.Proofs.Client.Get
import DhtStore.StorageNode

namespace DhtStore

open Reader

/-- A reply honours a hint if the value that it carries under a sequence number exceeds it. -/
def GetReply.Honors (hint : Seq) (reply : GetReply) : Prop :=
  ∀ seq, reply.value.isSome = true → reply.seq = some seq → hint < seq

/-- A query gets a reply in time, and the reply carries a valid mutable item. -/
def Query.Yields (q : Query) (timeout : Nat) (target : NodeId) (salt : Option Bytes)
    (item : MutableItem) : Prop :=
  ∃ delay reply, q.delivery = .after delay (.ok reply) ∧ delay < timeout ∧
    reply.classify target salt = .mutable item

namespace StorageNode

theorem honors_withMutable {reply : GetReply} (hvalue : reply.value = none) (hint : Seq)
    (item : MutableItem) : (withMutable reply (some hint) item).Honors hint := by
  unfold withMutable
  split
  · intro seq hsome
    simp [hvalue] at hsome
  · next hnewer =>
    intro seq _ hseq
    cases hseq
    exact Int64.not_le.1 (by simpa using hnewer)

theorem lookup_of_hint (n : StorageNode) (target : NodeId) (hint : Seq) (reply : GetReply)
    (hvalue : reply.value = none) :
    (n.lookup ⟨target, some hint⟩ reply).1.Honors hint ∧
      (n.lookup ⟨target, some hint⟩ reply).2.behavior = n.behavior := by
  have hbehavior : (n.useMutable target).2.behavior = n.behavior := rfl
  cases huse : n.useMutable target with
  | mk found after =>
    rw [huse] at hbehavior
    simp only [lookup, huse]
    cases found with
    | none =>
      refine ⟨?_, hbehavior⟩
      intro seq hsome
      simp [hvalue] at hsome
    | some item => exact ⟨honors_withMutable hvalue hint item, hbehavior⟩

/-- A node that does not tamper with its replies honours every hint. -/
theorem honors_handleGet {n : StorageNode} (hbehavior : n.behavior ≠ .corrupt) (requester : Address)
    (target : NodeId) (hint : Seq) (nodes : List Node) :
    (n.handleGet requester ⟨target, some hint⟩ nodes).1.Honors hint := by
  obtain ⟨hhonors, hsame⟩ := n.lookup_of_hint target hint
    { responder := some n.id, token := some (n.secrets.generate requester), nodes } rfl
  unfold handleGet
  dsimp only
  rw [hsame, if_neg hbehavior]
  exact hhonors

end StorageNode

variable {σ S : Type}

namespace Client

variable {c : Client σ S} {lifetime : Lifetime} {target : NodeId} {seq : Option Seq}
  {salt : Option Bytes} {now time : Instant} {network : σ} {item : MutableItem}

theorem mem_offers_iff {h : History} :
    (∃ arrival node, (arrival, node, .mutable item) ∈ (c.search lifetime target seq salt).offers network h) ↔
      ∃ q ∈ c.transport.queries network h, q.Yields c.config.requestTimeout target salt item := by
  have hitem (reply : GetReply) : (reply.classify target salt).item? = some (.mutable item) ↔
      reply.classify target salt = .mutable item := by
    cases reply.classify target salt <;> simp [Classification.item?]
  constructor
  · rintro ⟨arrival, node, hoffer⟩
    obtain ⟨q, hq, hbrings⟩ := List.mem_filterMap.1 hoffer
    obtain ⟨delay, reply, hdelivery, hdelay, -, -, hfound⟩ := Query.offer?_eq_some_iff.1 hbrings
    exact ⟨q, hq, delay, reply, hdelivery, hdelay, (hitem reply).1 hfound⟩
  · rintro ⟨q, hq, delay, reply, hdelivery, hdelay, hfound⟩
    refine ⟨q.start + delay, q.node, List.mem_filterMap.2 ⟨q, hq, ?_⟩⟩
    exact Query.offer?_eq_some_iff.2 ⟨delay, reply, hdelivery, hdelay, rfl, rfl, (hitem reply).2 hfound⟩

/-- A mutable item that is returned was yielded in time, and no query yielded one with a higher sequence
    number. -/
theorem best_of_get {found : Found} (hmutable : found.item = .mutable item)
    (hreturned : (c.get lifetime target seq salt now network).returned = some (time, .ok found)) :
    let queries := c.transport.queries network (c.get lifetime target seq salt now network).history
    (∃ q ∈ queries, q.Yields c.config.requestTimeout target salt item) ∧
      ∀ q ∈ queries, ∀ other, q.Yields c.config.requestTimeout target salt other →
        other.seq ≤ item.seq := by
  intro queries
  obtain ⟨arrival, node, -, hoffer⟩ := exists_offer_of_get hreturned
  rw [hmutable] at hoffer
  refine ⟨mem_offers_iff.1 ⟨arrival, node, hoffer⟩, fun q hq other hyields => ?_⟩
  obtain ⟨d, -, hresolved | ⟨kept, hkept, hexhausted⟩⟩ := discover_of_get hreturned
  · obtain ⟨state, _, _, held, hread, -⟩ := Search.resolved_spec hresolved
    obtain ⟨rfl, himmutable⟩ := eq_of_best_resolved hread
    rw [hmutable] at himmutable
    cases himmutable
  · obtain rfl : kept = item := Item.mutable.inj (hkept.symm.trans hmutable)
    obtain ⟨arrival, node, hother⟩ := mem_offers_iff.2 ⟨q, hq, hyields⟩
    rw [history_get hexhausted] at hother
    exact ((Search.best_of_exhausted hexhausted).2 kept rfl).2 arrival node other hother

theorem exists_found_of_getMutable {key : PublicKey}
    (hreturned : (c.getMutable lifetime key salt seq now network).returned = some (time, .ok item)) :
    ∃ found, found.item = .mutable item ∧
      (c.get lifetime (mutableTarget key.bytes salt) seq salt now network).returned =
        some (time, .ok found) := by
  obtain ⟨⟨instant, result⟩, hget, hresult⟩ := Option.map_eq_some_iff.1 hreturned
  cases result with
  | error failure => cases hresult
  | ok found =>
    cases hitem : found.item with
    | immutable value => simp [Except.bind, hitem] at hresult
    | mutable held =>
      simp only [Except.bind, hitem] at hresult
      cases hresult
      exact ⟨found, hitem, hget⟩

/-- Every query of a get carries the hint. A mutable item that the get returns, or the get of a mutable
    item, exceeds the hint exactly if an item yielded in time does; so it exceeds the hint whenever all
    replies that come in time honour it. -/
theorem hint_lt_seq_iff (c : Client σ S) (lifetime : Lifetime) (target : NodeId) (hint : Seq)
    (salt : Option Bytes) (now : Instant) (network : σ) :
    let get := c.get lifetime target (some hint) salt now network
    let queries := c.transport.queries network get.history
    (∀ q ∈ queries, q.request = ⟨target, some hint⟩) ∧
      ∀ time item,
        ((∃ found, found.item = .mutable item ∧ get.returned = some (time, .ok found)) ∨
          ∃ key, mutableTarget key.bytes salt = target ∧
            (c.getMutable lifetime key salt (some hint) now network).returned = some (time, .ok item)) →
        (hint < item.seq ↔ ∃ q ∈ queries, ∃ other,
          q.Yields c.config.requestTimeout target salt other ∧ hint < other.seq) ∧
        ((∀ q ∈ queries, ∀ delay reply, q.delivery = .after delay (.ok reply) →
          delay < c.config.requestTimeout → reply.Honors hint) → hint < item.seq) := by
  intro get queries
  constructor
  · intro q hq
    exact (c.requests_of_get lifetime target (some hint) salt now network q hq).1
  · intro time item hreturned
    obtain ⟨found, hmutable, hget⟩ :
        ∃ found, found.item = .mutable item ∧ get.returned = some (time, .ok found) := by
      obtain hget | ⟨key, rfl, hgetMutable⟩ := hreturned
      · exact hget
      · exact exists_found_of_getMutable hgetMutable
    obtain ⟨⟨q, hq, hyields⟩, hbest⟩ := best_of_get hmutable hget
    refine ⟨⟨fun hlt => ⟨q, hq, item, hyields, hlt⟩, ?_⟩, ?_⟩
    · rintro ⟨other, hother, held, hheld, hlt⟩
      exact Int64.lt_of_lt_of_le hlt (hbest other hother held hheld)
    · intro hhonors
      obtain ⟨delay, reply, hdelivery, hdelay, hclass⟩ := hyields
      obtain ⟨hvalue, _, hseq, _⟩ := (GetReply.classify_eq_mutable_iff.1 hclass).1
      exact hhonors q hq delay reply hdelivery hdelay item.seq (by rw [hvalue]; rfl) hseq

theorem hint_lt_seq_lone :
    let c := Client.ofLone (.after 0 (.ok (.ofMutable .sample)))
    (c.getMutable {} MutableItem.sample.key none (some 6) 0 ()).returned =
        some (0, .ok MutableItem.sample) ∧ 6 < MutableItem.sample.seq := by
  intro c
  have hreturned : (c.getMutable {} MutableItem.sample.key none (some 6) 0 ()).returned =
      some (0, .ok MutableItem.sample) := by
    decide +kernel
  have hreplies : ((c.transport.queries ()
      (c.get {} MutableItem.sample.target (some 6) none 0 ()).history).all fun q =>
        (q.reply? c.config.requestTimeout).all (· = .ofMutable .sample)) = true := by
    decide +kernel
  refine ⟨hreturned, ?_⟩
  have hspec := (hint_lt_seq_iff c {} MutableItem.sample.target 6 none 0 ()).2 0 MutableItem.sample
    (.inr ⟨MutableItem.sample.key, rfl, hreturned⟩)
  apply hspec.2
  intro q hq delay reply hdelivery hdelay seq _ hseq
  have hreply : q.reply? c.config.requestTimeout = some reply := by
    simp [Query.reply?, hdelivery, Nat.le_of_lt hdelay]
  have hsample := List.all_eq_true.1 hreplies q hq
  rw [hreply] at hsample
  obtain rfl : reply = .ofMutable .sample := of_decide_eq_true hsample
  cases hseq
  decide

/-- A node that ignores the hint: an item is returned whose sequence number does not exceed it. -/
theorem hint_not_enforced :
    let c := Client.ofLone (.after 0 (.ok (.ofMutable .sample)))
    (∃ found, found.item = .mutable .sample ∧
      (c.get {} MutableItem.sample.target (some 7) none 0 ()).returned = some (0, .ok found)) ∧
      (c.getMutable {} MutableItem.sample.key none (some 7) 0 ()).returned =
        some (0, .ok MutableItem.sample) ∧
      ¬ 7 < MutableItem.sample.seq := by
  intro c
  have hreturned : (c.getMutable {} MutableItem.sample.key none (some 7) 0 ()).returned =
      some (0, .ok MutableItem.sample) := by
    decide +kernel
  exact ⟨exists_found_of_getMutable hreturned, hreturned, by decide⟩

end Client

end DhtStore
