import DhtStore.Client
import DhtStore.Engine.Iterative
import DhtStore.Proofs.Classification
import DhtStore.Proofs.Discovery.Endings
import DhtStore.ScriptedNetwork

namespace DhtStore

open Reader

variable {σ S : Type}

namespace Client

variable {c : Client σ S} {lifetime : Lifetime} {target : NodeId} {seq : Option Seq}
  {salt : Option Bytes} {now time : Instant} {network : σ} {found : Found}

theorem history_get {ending : Ending (Option MutableItem)} {d : Discovery σ S (Option MutableItem)}
    (hdiscover : (c.search lifetime target seq salt).discover best none now network = (ending, d)) :
    (c.get lifetime target seq salt now network).history = d.history := by
  simp only [get, hdiscover]

theorem requests_of_get (c : Client σ S) (lifetime : Lifetime) (target : NodeId) (seq : Option Seq)
    (salt : Option Bytes) (now : Instant) (network : σ) :
    ∀ q ∈ c.transport.queries network (c.get lifetime target seq salt now network).history,
      q.request = ⟨target, seq⟩ ∧ now ≤ q.start := by
  cases hdiscover : (c.search lifetime target seq salt).discover best none now network with
  | mk ending d =>
    rw [history_get hdiscover]
    exact Search.requests_of_discover hdiscover

/-- A get succeeds in one of two ways: its search is resolved, or nothing is left to ask and an item
    was kept. -/
theorem discover_of_get
    (hreturned : (c.get lifetime target seq salt now network).returned = some (time, .ok found)) :
    ∃ d : Discovery σ S (Option MutableItem), d.now = time ∧
      ((c.search lifetime target seq salt).discover best none now network = (.resolved found.item, d) ∨
        ∃ item, found.item = .mutable item ∧
          (c.search lifetime target seq salt).discover best none now network =
            (.exhausted (some item), d)) := by
  cases hdiscover : (c.search lifetime target seq salt).discover best none now network with
  | mk ending d =>
    simp only [get, hdiscover] at hreturned
    cases ending with
    | resolved item =>
      cases hreturned
      exact ⟨d, rfl, .inl rfl⟩
    | exhausted kept =>
      cases kept with
      | none => cases hreturned
      | some item =>
        cases hreturned
        exact ⟨d, rfl, .inr ⟨item, rfl, rfl⟩⟩
    | interrupted reason => cases hreturned
    | endless => cases hreturned

/-- The item of a successful get came in time, and no later than the get returned. -/
theorem exists_offer_of_get
    (hreturned : (c.get lifetime target seq salt now network).returned = some (time, .ok found)) :
    ∃ arrival node, arrival ≤ time ∧
      (arrival, node, found.item) ∈ (c.search lifetime target seq salt).offers network
        (c.get lifetime target seq salt now network).history := by
  obtain ⟨d, rfl, hresolved | ⟨item, hitem, hexhausted⟩⟩ := discover_of_get hreturned
  · obtain ⟨kept, arrival, node, held, hread, hoffer, harrival⟩ := Search.resolved_spec hresolved
    obtain ⟨rfl, _⟩ := eq_of_best_resolved hread
    rw [history_get hresolved]
    exact ⟨arrival, node, harrival, hoffer⟩
  · rw [history_get hexhausted, hitem]
    exact ((Search.best_of_exhausted hexhausted).2 item rfl).1

/-- Whatever the network does, in whatever order, and however the call is limited: an item that a get
    returns is valid for the target and the salt, and all its fields are those of a single reply, which
    a query of this call got before its timeout and before the get returned. -/
theorem get_authentic
    (hreturned : (c.get lifetime target seq salt now network).returned = some (time, .ok found)) :
    found.item.IsValidFor target salt ∧
      ∃ q ∈ c.transport.queries network (c.get lifetime target seq salt now network).history,
        ∃ delay reply, q.request = ⟨target, seq⟩ ∧ q.delivery = .after delay (.ok reply) ∧
          reply.Carries found.item ∧ delay < c.config.requestTimeout ∧ now ≤ q.start ∧
          q.start + delay ≤ time := by
  obtain ⟨arrival, node, harrival, hoffer⟩ := exists_offer_of_get hreturned
  obtain ⟨q, hq, hbrings⟩ := List.mem_filterMap.1 hoffer
  obtain ⟨delay, reply, hdelivery, hdelay, rfl, -, hitem⟩ := Query.offer?_eq_some_iff.1 hbrings
  obtain ⟨hvalid, hcarries⟩ := GetReply.valid_of_item?_classify hitem
  obtain ⟨hrequest, hstart⟩ := c.requests_of_get lifetime target seq salt now network q hq
  exact ⟨hvalid, q, hq, delay, reply, hrequest, hdelivery, hcarries, hdelay, hstart, harrival⟩

end Client

/-- A network of one node, which answers every get in the same way. -/
def ScriptedNetwork.lone (answer : Delivery GetReply) : ScriptedNetwork :=
  { nodes := [{ address := default, gets := [answer] }], start := [⟨default, default, none⟩] }

def Client.ofLone (answer : Delivery GetReply) : Client Unit Iterative.Lookup where
  transport := (ScriptedNetwork.lone answer).transport 0
  engine := .iterative {}

/-- The reply that carries a mutable item and nothing else. -/
def GetReply.ofMutable (item : MutableItem) : GetReply :=
  { value := some item.value, key := some item.key, seq := some item.seq
    signature := some item.signature }

/-- An item with a genuine signature. -/
def MutableItem.sample : MutableItem := .sign default (Bytes.ofAscii "value") 7 none

theorem GetReply.classify_sample :
    (ofMutable .sample).classify MutableItem.sample.target none = .mutable .sample := by
  decide +kernel

theorem Client.get_authentic_lone :
    let c := Client.ofLone (.after 3 (.ok { value := some (Bytes.ofAscii "value") }))
    let target := immutableTarget (Bytes.ofAscii "value")
    ∃ found, (c.get {} target none none 0 ()).returned = some (3, .ok found) ∧
      found.item.IsValidFor target none := by
  intro c target
  have hreturned : ((c.get {} target none none 0 ()).returned.map fun (time, result) =>
      (time, result.toOption.map Found.item)) = some (3, some (.immutable (Bytes.ofAscii "value"))) := by
    decide +kernel
  obtain ⟨⟨time, result⟩, hget, hresult⟩ := Option.map_eq_some_iff.1 hreturned
  cases result with
  | error failure => simp [Except.toOption] at hresult
  | ok found =>
    obtain ⟨rfl, -⟩ := Prod.mk.inj hresult
    exact ⟨found, hget, (get_authentic hget).1⟩

end DhtStore
