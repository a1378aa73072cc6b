import DhtStore.Proofs.FanOut
import DhtStore.Proofs.StorageNode.Objections
import DhtStore.Proofs.Testnet.Survey

namespace DhtStore

open Testnet

namespace StorageNode

/-- The request by which the client has a node store an item. -/
def putRequest (n : StorageNode) (item : Item) : PutRequest := ⟨n.token, item⟩

/-- A node has nothing to object to in an item. -/
def Accepts (n : StorageNode) : Item → Prop
  | .immutable value => value.length ≤ maxValueSize
  | .mutable item =>
    item.value.length ≤ maxValueSize ∧ (item.salt.getD []).length ≤ maxSaltSize ∧
      Ed25519.verifies item.key.bytes (signable item.seq item.value item.salt) item.signature.bytes = true ∧
      ∀ held, n.mutables.peek? item.target = some held → isOutdated item held = false

/-- What a write comes to at a node that has nothing to object to in the item. -/
def View.outcome (v : View) : WriteOutcome :=
  match v.behavior with
  | .honest | .corrupt => .stored
  | .rejectWrites => .failed (.refused ⟨201, "Generic Error"⟩)
  | .unresponsive | .hangWrites => .failed .timeout
  | .offline => .failed (.unreachable v.address)

/-- What the client gets back for a put. -/
def delivery (n : StorageNode) (request : PutRequest) : Delivery Unit :=
  match n.behavior with
  | .offline => .after 0 (.error (.unreachable n.address))
  | .unresponsive | .hangWrites => .never
  | _ => .after 0 ((n.handlePut clientAddress request).1.mapError fun refusal => .refused refusal.error)

/-- What a put makes of a node. -/
def receive (n : StorageNode) (request : PutRequest) : StorageNode :=
  match n.behavior with
  | .offline | .unresponsive | .hangWrites => n
  | _ => (n.handlePut clientAddress request).2

variable {n : StorageNode} {item : Item}

theorem Becomes.receive (n : StorageNode) (request : PutRequest) : n.Becomes (n.receive request) := by
  unfold StorageNode.receive
  split
  · exact .refl n
  · exact .refl n
  · exact .refl n
  · exact .handlePut n clientAddress request

/-- To have nothing to object to in an item is to have no reason, in any of the checks of the item, to refuse a
    put of it. -/
theorem accepts_iff {requester : Address} {request : PutRequest} :
    n.Accepts request.item ↔ ∀ refusal : Refusal, Refusal.valueTooBig.turn ≤ refusal.turn →
      ¬ n.Objects requester request refusal := by
  obtain ⟨token, item⟩ := request
  constructor
  · intro haccepts refusal hturn
    cases item with
    | immutable value =>
      cases refusal with
      | unwilling | badToken => exact absurd hturn (by decide)
      | valueTooBig => exact Nat.not_lt.2 haccepts
      | saltTooBig | badSignature | outdated => simp [Objects]
    | mutable item =>
      obtain ⟨hvalue, hsalt, hverifies, hnewer⟩ := haccepts
      cases refusal with
      | unwilling | badToken => exact absurd hturn (by decide)
      | valueTooBig => exact Nat.not_lt.2 hvalue
      | saltTooBig => simpa [Objects] using hsalt
      | badSignature => simpa [Objects] using hverifies
      | outdated =>
        rintro ⟨_, held, hitem, hheld, hlater⟩
        cases hitem
        cases (hnewer held hheld).symm.trans (isOutdated_eq_true_iff.2 hlater)
  · intro hnone
    have hvalue : item.value.length ≤ maxValueSize := Nat.not_lt.1 (hnone .valueTooBig (by decide))
    cases item with
    | immutable value => exact hvalue
    | mutable item =>
      refine ⟨hvalue, ?_, ?_, fun held hheld => Bool.eq_false_iff.2 fun hlater => ?_⟩
      · simpa [Objects] using hnone .saltTooBig (by decide)
      · simpa [Objects] using hnone .badSignature (by decide)
      · exact hnone .outdated (by decide) ⟨item, held, rfl, hheld, isOutdated_eq_true_iff.1 hlater⟩

/-- A node stores an item that it has nothing to object to, if it is willing and the token is its own. -/
theorem handlePut_of_accepts {requester : Address} (hwilling : n.behavior ≠ .rejectWrites)
    (haccepts : n.Accepts item) :
    n.handlePut requester ⟨n.secrets.generate requester, item⟩ = (.ok (), n.store item) := by
  have htoken : n.secrets.validates requester (n.secrets.generate requester) = true := by
    simp [TokenSecrets.validates, TokenSecrets.generate]
  obtain ⟨-, hok⟩ | ⟨refusal, ⟨hobjects, -⟩, -⟩ :=
    n.handlePut_spec requester ⟨n.secrets.generate requester, item⟩
  · exact hok
  · cases refusal with
    | unwilling => exact absurd hobjects hwilling
    | badToken => cases htoken.symm.trans hobjects
    | valueTooBig | saltTooBig | badSignature | outdated =>
      exact absurd hobjects (accepts_iff.1 haccepts _ (by decide))

/-- A write to a node that has nothing to object to ends at once or never, as its behavior has it. -/
theorem conclude_delivery (haccepts : n.Accepts item) (now : Instant) (timeout : Nat) :
    (FanOut.conclude now timeout (n.delivery (n.putRequest item))).2 = n.view.outcome := by
  have hstored (hwilling : n.behavior ≠ .rejectWrites) :
      (n.handlePut clientAddress (n.putRequest item)).1 = .ok () :=
    congrArg Prod.fst (handlePut_of_accepts hwilling haccepts)
  unfold delivery View.outcome view
  cases hbehavior : n.behavior with
  | rejectWrites =>
    have hrefused : (n.handlePut clientAddress (n.putRequest item)).1 = .error .unwilling := by
      simp [handlePut, hbehavior]
    simp [hrefused, FanOut.conclude, Except.mapError, Refusal.error]
  | honest | corrupt =>
    have hok := hstored (by simp [hbehavior])
    simp [hok, FanOut.conclude, Except.mapError]
  | _ => simp [FanOut.conclude]

end StorageNode

namespace Testnet

variable {t : Testnet} {n : StorageNode} {ns : List StorageNode} {item : Item}

/-- The network after an item was sent to the nodes at some addresses. -/
def written (t : Testnet) (addresses : List Address) (item : Item) : Testnet :=
  ⟨t.nodes.map fun n => if n.address ∈ addresses then n.receive (n.putRequest item) else n⟩

theorem WellFormed.written (hformed : t.WellFormed) (addresses : List Address) (item : Item) :
    (t.written addresses item).WellFormed := by
  refine hformed.map fun n _ => ?_
  split
  · exact .receive n _
  · exact .refl n

@[simp] theorem written_nil (t : Testnet) (item : Item) : t.written [] item = t := by
  simp [written]

theorem written_concern (hformed : t.WellFormed) (hn : n ∈ t.nodes) (item : Item) :
    t.written [n.address] item = t.modify n.address fun _ => n.receive (n.putRequest item) := by
  refine congrArg Testnet.mk (List.map_congr_left fun m hm => ?_)
  by_cases hsame : m.address = n.address
  · simp [eq_of_address_eq hformed hm hn hsame]
  · simp [hsame]

/-- A put is received by the node at its address and by no other. -/
theorem put_spec (hformed : t.WellFormed) (hn : n ∈ t.nodes) (item : Item) :
    t.put n.address (n.putRequest item) = (n.delivery (n.putRequest item), t.written [n.address] item) := by
  have hfound := (node?_eq_some_iff hformed).2 ⟨hn, rfl⟩
  have hkeep : (t.modify n.address fun _ => n) = t := by
    refine congrArg Testnet.mk ((List.map_congr_left fun m hm => ?_).trans (List.map_id' _))
    by_cases hsame : m.address = n.address
    · rw [if_pos hsame, eq_of_address_eq hformed hm hn hsame]
    · rw [if_neg hsame]
  rw [written_concern hformed hn]
  unfold put reachable? StorageNode.delivery StorageNode.receive
  rw [hfound, Option.filter_some]
  cases hbehavior : n.behavior <;> simp [hbehavior, hkeep]

/-- Writes to different nodes add up. -/
theorem written_cons (t : Testnet) {address : Address} {addresses : List Address}
    (hnew : address ∉ addresses) (item : Item) :
    (t.written [address] item).written addresses item = t.written (address :: addresses) item := by
  have haddress (n : StorageNode) (request : PutRequest) : (n.receive request).address = n.address :=
    (StorageNode.Becomes.receive n request).address
  simp only [written, List.map_map, Testnet.mk.injEq]
  refine List.map_congr_left fun n _ => ?_
  by_cases hsame : n.address = address
  · simp [hsame, haddress, hnew]
  · simp [hsame]

end Testnet

variable {lifetime : Lifetime} {t : Testnet} {ns : List StorageNode} {item : Item}

/-- Each node to which the client sends an item acts as if it were the only one. -/
theorem FanOut.send_vouched (timeout : Nat) (item : Item) (now : Instant) (hformed : t.WellFormed)
    (hns : ns ⊆ t.nodes) (hdistinct : (ns.map StorageNode.address).Nodup) :
    let sent := FanOut.send Testnet.transport timeout now (spawn item (ns.map StorageNode.vouched)) t
    sent.slots = ns.map (fun n => ⟨n.vouched, some (conclude now timeout (n.delivery (n.putRequest item)))⟩) ∧
      sent.network = t.written (ns.map StorageNode.address) item := by
  induction ns generalizing t with
  | nil => simp [spawn, FanOut.send]
  | cons n ns ih =>
    obtain ⟨hn, hrest⟩ := List.forall_mem_cons.1 hns
    obtain ⟨hnew, hothers⟩ := List.nodup_cons.1 hdistinct
    have hput := put_spec hformed hn item
    have hkept : ns ⊆ (t.written [n.address] item).nodes := by
      intro m hm
      have hapart : m.address ≠ n.address := fun hsame => hnew (hsame ▸ List.mem_map_of_mem hm)
      exact List.mem_map.2 ⟨m, hrest m hm, by simp [hapart]⟩
    obtain ⟨hslots, hnetwork⟩ := ih (hformed.written [n.address] item) hkept hothers
    refine ⟨?_, ?_⟩
    · change (⟨n.vouched, some (conclude now timeout (t.put n.address (n.putRequest item)).1)⟩ : Slot) ::
        (send Testnet.transport timeout now (spawn item (ns.map StorageNode.vouched))
          (t.put n.address (n.putRequest item)).2).slots = _
      rw [hput, hslots]
      rfl
    · change (send Testnet.transport timeout now (spawn item (ns.map StorageNode.vouched))
        (t.put n.address (n.putRequest item)).2).network = _
      rw [hput, hnetwork, written_cons t hnew]
      rfl

/-- Each node to which an item is written comes to its own outcome, if nothing cuts the writes short. -/
theorem fanOut_vouched (timeout : Nat) (now : Instant) (hforever : lifetime.endsAt? = none)
    (hformed : t.WellFormed) (hns : ns ⊆ t.nodes) (hdistinct : (ns.map StorageNode.address).Nodup)
    (haccepts : ∀ n ∈ ns, n.Accepts item) :
    let result := fanOut Testnet.transport lifetime timeout (ns.map StorageNode.vouched) item now t
    result.writes = ns.map (fun n => ⟨n.vouched, n.view.outcome⟩) ∧
      result.network = t.written (ns.map StorageNode.address) item := by
  have hlasting (time : Instant) : lifetime.isOver time = false := by
    by_contra hover
    obtain ⟨limit, hends, -⟩ := Lifetime.isOver_iff.1 (Bool.of_not_eq_false hover)
    cases hforever.symm.trans hends
  obtain ⟨hslots, hnetwork⟩ := FanOut.send_vouched timeout item now hformed hns hdistinct
  simp only [fanOut, FanOut.begin_of_lasting (hlasting now)]
  refine ⟨?_, hnetwork⟩
  rw [hslots, List.map_map]
  refine List.map_congr_left fun n hn => ?_
  have houtcome := StorageNode.conclude_delivery (haccepts n hn) now timeout
  simp [FanOut.Slot.outcome, hlasting, ← houtcome]

end DhtStore
