import DhtStore.Discovery
import DhtStore.Proofs.Classification
import DhtStore.StorageNode

namespace DhtStore

/-- Whether a node of a behavior replies to gets. -/
def Behavior.repliesToGets : Behavior → Bool
  | unresponsive | offline => false
  | _ => true

namespace StorageNode

/-- What others can tell of a node: all but the order in which it used what it holds. -/
structure View where
  id : NodeId
  address : Address
  behavior : Behavior
  secrets : TokenSecrets
  immutable? : NodeId → Option Bytes
  mutable? : NodeId → Option MutableItem

def view (n : StorageNode) : View where
  id := n.id
  address := n.address
  behavior := n.behavior
  secrets := n.secrets
  immutable? := n.immutables.peek?
  mutable? := n.mutables.peek?

/-- A node that holds no more than it has room for. -/
structure Fits (n : StorageNode) : Prop where
  immutables : n.immutables.Fits
  mutables : n.mutables.Fits

/-- A node has an item at a target, whether or not it also has others there. -/
def Holds (n : StorageNode) (target : NodeId) : Item → Prop
  | .immutable value => n.immutables.peek? target = some value
  | .mutable item => n.mutables.peek? target = some item

variable {n m : StorageNode} {requester : Address} {request : GetRequest} {nodes : List Node}
  {reply : GetReply} {target : NodeId}

@[simp] theorem fst_useImmutable : (n.useImmutable target).1 = n.immutables.peek? target :=
  RecencyCache.fst_use ..

@[simp] theorem fst_useMutable : (n.useMutable target).1 = n.mutables.peek? target :=
  RecencyCache.fst_use ..

theorem Fits.create (id : NodeId) (address : Address) (secrets : TokenSecrets) :
    (StorageNode.create id address secrets).Fits := ⟨Nat.zero_le _, Nat.zero_le _⟩

/-- The node that another one has become: it stays where it was, under its id, and still does not hold more
    than it has room for. -/
structure Becomes (n after : StorageNode) : Prop where
  id : after.id = n.id
  address : after.address = n.address
  fits : n.Fits → after.Fits

namespace Becomes

theorem refl (n : StorageNode) : n.Becomes n := ⟨rfl, rfl, fun hfits => hfits⟩

theorem trans {after : StorageNode} (hfirst : n.Becomes m) (hnext : m.Becomes after) : n.Becomes after :=
  ⟨hnext.id.trans hfirst.id, hnext.address.trans hfirst.address, fun hfits => hnext.fits (hfirst.fits hfits)⟩

theorem setBehavior (n : StorageNode) (behavior : Behavior) : n.Becomes { n with behavior } :=
  ⟨rfl, rfl, fun hfits => ⟨hfits.immutables, hfits.mutables⟩⟩

theorem useImmutable (n : StorageNode) (target : NodeId) : n.Becomes (n.useImmutable target).2 :=
  ⟨rfl, rfl, fun hfits => ⟨hfits.immutables.use target, hfits.mutables⟩⟩

theorem useMutable (n : StorageNode) (target : NodeId) : n.Becomes (n.useMutable target).2 :=
  ⟨rfl, rfl, fun hfits => ⟨hfits.immutables, hfits.mutables.use target⟩⟩

theorem item (n : StorageNode) (target : NodeId) : n.Becomes (n.item target).2 := by
  have hfirst := useImmutable n target
  unfold StorageNode.item
  cases huse : n.useImmutable target with
  | mk found after =>
    rw [huse] at hfirst
    cases found with
    | some value => exact hfirst
    | none => exact hfirst.trans (useMutable after target)

theorem store (n : StorageNode) (item : Item) : n.Becomes (n.store item) := by
  cases item with
  | immutable value =>
    exact ⟨rfl, rfl, fun hfits => ⟨RecencyCache.length_entries_insert_le .., hfits.mutables⟩⟩
  | mutable item =>
    exact ⟨rfl, rfl, fun hfits => ⟨hfits.immutables, RecencyCache.length_entries_insert_le ..⟩⟩

theorem putMutable (n : StorageNode) (item : MutableItem) : n.Becomes (n.putMutable item).2 := by
  have hused := useMutable n item.target
  unfold StorageNode.putMutable
  split
  · exact refl n
  split
  · exact refl n
  dsimp only
  split
  · exact hused
  · exact hused.trans (store _ (.mutable item))

theorem handlePut (n : StorageNode) (requester : Address) (request : PutRequest) :
    n.Becomes (n.handlePut requester request).2 := by
  obtain ⟨token, item⟩ := request
  unfold StorageNode.handlePut
  split
  · exact refl n
  split
  · exact refl n
  split
  · exact refl n
  cases item with
  | immutable value => exact store n (.immutable value)
  | mutable item => exact putMutable n item

end Becomes

/-- What a node of a view replies to a get before it tampers. -/
def View.lookup (v : View) (request : GetRequest) (reply : GetReply) : GetReply :=
  match request.seq.elim (v.immutable? request.target) fun _ => none, v.mutable? request.target with
  | some value, _ => { reply with value := some value }
  | none, some item => withMutable reply request.seq item
  | none, none => reply

/-- A lookup comes to the reply that others expect, and at most uses what the node holds at the target. -/
theorem exists_lookup (n : StorageNode) (request : GetRequest) (reply : GetReply) :
    ∃ immutables mutables,
      n.lookup request reply = (n.view.lookup request reply, { n with immutables, mutables }) ∧
      (immutables = n.immutables ∨ immutables = (n.immutables.use request.target).2) ∧
      (mutables = n.mutables ∨ mutables = (n.mutables.use request.target).2) := by
  obtain ⟨target, seq⟩ := request
  have hmutable : (n.mutables.use target).1 = n.mutables.peek? target := RecencyCache.fst_use ..
  have himmutable : (n.immutables.use target).1 = n.immutables.peek? target := RecencyCache.fst_use ..
  simp only [lookup, View.lookup, view, useImmutable, useMutable, ← hmutable, ← himmutable]
  cases seq with
  | some hint =>
    simp only [Option.elim_some]
    cases (n.mutables.use target).1 <;> exact ⟨_, _, rfl, .inl rfl, .inr rfl⟩
  | none =>
    simp only [Option.elim_none]
    cases (n.immutables.use target).1 with
    | some value => exact ⟨_, _, rfl, .inr rfl, .inl rfl⟩
    | none => cases (n.mutables.use target).1 <;> exact ⟨_, _, rfl, .inr rfl, .inr rfl⟩

theorem lookup_spec (hfits : n.Fits) (request : GetRequest) (reply : GetReply) :
    (n.lookup request reply).1 = n.view.lookup request reply ∧
      (n.lookup request reply).2.view = n.view ∧ (n.lookup request reply).2.Fits := by
  obtain ⟨immutables, mutables, hlookup, himmutables, hmutables⟩ := n.exists_lookup request reply
  obtain ⟨himmutable, hfirst⟩ := hfits.immutables.of_use himmutables
  obtain ⟨hmutable, hsecond⟩ := hfits.mutables.of_use hmutables
  rw [hlookup]
  refine ⟨rfl, ?_, hfirst, hsecond⟩
  simp only [view, himmutable, hmutable]

/-- What a node of a view replies to a get. -/
def View.answer (v : View) (requester : Address) (request : GetRequest) (nodes : List Node) : GetReply :=
  let blank : GetReply := { responder := some v.id, token := some (v.secrets.generate requester), nodes }
  if v.behavior = .corrupt then tamper (v.lookup request blank) else v.lookup request blank

/-- A node replies as others expect it to, by what it holds. -/
theorem fst_handleGet (n : StorageNode) (requester : Address) (request : GetRequest) (nodes : List Node) :
    (n.handleGet requester request nodes).1 = n.view.answer requester request nodes := by
  obtain ⟨immutables, mutables, hlookup, -⟩ := n.exists_lookup request
    { responder := some n.id, token := some (n.secrets.generate requester), nodes }
  unfold handleGet
  rw [hlookup]
  rfl

/-- Others cannot tell afterwards that a node has replied. -/
theorem handleGet_spec (hfits : n.Fits) (requester : Address) (request : GetRequest) (nodes : List Node) :
    (n.handleGet requester request nodes).1 = n.view.answer requester request nodes ∧
      (n.handleGet requester request nodes).2.view = n.view ∧
      (n.handleGet requester request nodes).2.Fits := by
  obtain ⟨-, hview, hafter⟩ := lookup_spec hfits request
    { responder := some n.id, token := some (n.secrets.generate requester), nodes }
  exact ⟨n.fst_handleGet requester request nodes, hview, hafter⟩

theorem report_withMutable (hint : Option Seq) (item : MutableItem) (asked : Node) :
    (withMutable reply hint item).report asked = reply.report asked := by
  unfold withMutable
  split <;> rfl

theorem report_lookup (v : View) (asked : Node) :
    (v.lookup request reply).report asked = reply.report asked := by
  unfold View.lookup
  split
  · rfl
  · exact report_withMutable ..
  · rfl

/-- Even a node that tampers with values gives its own id and token, and names the nodes that it knows. -/
theorem report_answer (v : View) (asked : Node) :
    (v.answer requester request nodes).report asked =
      { responder := some ⟨v.id, asked.address, some (v.secrets.generate requester)⟩, closer := nodes } := by
  unfold View.answer
  split
  · exact report_lookup v asked
  · exact report_lookup v asked

section

variable {salt : Option Bytes} {item other : Item}

/-- What a client finds in the answer of a node that does not tamper is what the node holds at the target, an
    immutable value first. -/
theorem classify_answer (hbehavior : n.behavior ≠ .corrupt) :
    (n.view.answer requester ⟨target, none⟩ nodes).classify target salt =
      match n.immutables.peek? target, n.mutables.peek? target with
      | some value, _ => ({ value := some value } : GetReply).classify target salt
      | none, some held => (withMutable {} none held).classify target salt
      | none, none => .empty := by
  let blank : GetReply := { responder := some n.id, token := some (n.secrets.generate requester), nodes }
  have hclean : n.view.answer requester ⟨target, none⟩ nodes = n.view.lookup ⟨target, none⟩ blank :=
    if_neg hbehavior
  rw [hclean]
  simp only [View.lookup, view, Option.elim_none]
  cases n.immutables.peek? target with
  | some value => rfl
  | none => cases n.mutables.peek? target <;> rfl

/-- A node that does not tamper makes known the item that it holds at a target: exactly this one if it holds
    no other there. -/
theorem item?_answer_iff (hbehavior : n.behavior ≠ .corrupt) (hvalid : item.IsValidFor target salt)
    (hhash : ∀ held, item = .mutable held → immutableTarget held.value ≠ target)
    (honly : ∀ other, n.Holds target other → other = item) :
    ((n.view.answer requester ⟨target, none⟩ nodes).classify target salt).item? = some other ↔
      n.Holds target other := by
  have hiff {found : Classification} (hfound : found.item? = some item) (hholds : n.Holds target item) :
      found.item? = some other ↔ n.Holds target other := by
    rw [hfound, Option.some_inj]
    exact ⟨fun heq => heq ▸ hholds, fun hother => (honly other hother).symm⟩
  rw [classify_answer hbehavior]
  cases himmutable : n.immutables.peek? target with
  | some value =>
    obtain rfl := honly (.immutable value) himmutable
    have hclass : ({ value := some value } : GetReply).classify target salt = .immutable value :=
      GetReply.classify_eq_immutable_iff.2 ⟨rfl, Item.isValidFor_immutable_iff.1 hvalid⟩
    exact hiff (congrArg Classification.item? hclass) himmutable
  | none =>
    cases hmutable : n.mutables.peek? target with
    | some held =>
      obtain rfl := honly (.mutable held) hmutable
      have hclass : (withMutable {} none held).classify target salt = .mutable held :=
        GetReply.classify_eq_mutable_iff.2 ⟨⟨rfl, rfl, rfl, rfl⟩, hhash held rfl, hvalid⟩
      exact hiff (congrArg Classification.item? hclass) hmutable
    | none => cases other <;> simp [Holds, himmutable, hmutable, Classification.item?]

end

end StorageNode

end DhtStore
