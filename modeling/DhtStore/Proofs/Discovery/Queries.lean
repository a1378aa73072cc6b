import DhtStore.Discovery
import Mathlib.Data.List.Basic

namespace DhtStore

/-- A query, and what the network makes of it. -/
structure Query where
  start : Instant
  node : Node
  request : GetRequest
  delivery : Delivery GetReply

namespace Query

/-- The reply, if it comes no later than the timeout. -/
def reply? (q : Query) (timeout : Nat) : Option GetReply :=
  match q.delivery with
  | .after delay (.ok reply) => if delay ≤ timeout then some reply else none
  | _ => none

/-- The valid item of a reply that comes before the timeout, with the instant at which it comes and the
    node that was asked. -/
def offer? (q : Query) (timeout : Nat) (target : NodeId) (salt : Option Bytes) :
    Option (Instant × Node × Item) :=
  match q.delivery with
  | .after delay (.ok reply) =>
    if delay < timeout then
      (reply.classify target salt).item?.map fun item => (q.start + delay, q.node, item)
    else none
  | _ => none

def report (q : Query) (timeout : Nat) : QueryReport :=
  match q.reply? timeout with
  | some reply => reply.report q.node
  | none => {}

/-- The node that a query vouches for: a reply in time came from its address and gave the token. -/
def responder? (q : Query) (timeout : Nat) : Option Node := (q.report timeout).responder

/-- The instant at which a query is over. -/
def due (q : Query) (timeout : Nat) : Instant :=
  match q.delivery with
  | .after delay _ => q.start + min delay timeout
  | .never => q.start + timeout

def flight (timeout : Nat) (q : Query) : Flight := .depart q.start timeout q.node q.delivery

variable {q : Query} {timeout : Nat} {target : NodeId} {salt : Option Bytes}

theorem offer?_eq_some_iff {time : Instant} {node : Node} {item : Item} :
    q.offer? timeout target salt = some (time, node, item) ↔
      ∃ delay reply, q.delivery = .after delay (.ok reply) ∧ delay < timeout ∧
        time = q.start + delay ∧ node = q.node ∧ (reply.classify target salt).item? = some item := by
  unfold offer?
  constructor
  · intro hoffer
    split at hoffer
    · next delay reply hdelivery =>
      split at hoffer
      · next hlt =>
        obtain ⟨found, hfound, heq⟩ := Option.map_eq_some_iff.1 hoffer
        cases heq
        exact ⟨delay, reply, hdelivery, hlt, rfl, rfl, hfound⟩
      · cases hoffer
    · cases hoffer
  · rintro ⟨delay, reply, hdelivery, hlt, rfl, rfl, hitem⟩
    simp [hdelivery, hlt, hitem]

theorem reply?_eq_some_iff {reply : GetReply} :
    q.reply? timeout = some reply ↔
      ∃ delay, q.delivery = .after delay (.ok reply) ∧ delay ≤ timeout := by
  unfold reply?
  constructor
  · intro hreply
    split at hreply
    · next delay answer hdelivery =>
      split at hreply
      · next hle =>
        cases hreply
        exact ⟨delay, hdelivery, hle⟩
      · cases hreply
    · cases hreply
  · rintro ⟨delay, hdelivery, hle⟩
    simp [hdelivery, hle]

/-- Whatever id a node claims, it is taken to be at the address that was asked, with the token that came
    from there. -/
theorem responder?_eq_some_iff {node : Node} :
    q.responder? timeout = some node ↔
      ∃ delay reply token, q.delivery = .after delay (.ok reply) ∧ delay ≤ timeout ∧
        reply.token = some token ∧
        node = { id := reply.responder.getD q.node.id, address := q.node.address, token := some token } := by
  unfold responder? report
  constructor
  · intro hresponder
    cases hreply : q.reply? timeout with
    | none =>
      rw [hreply] at hresponder
      cases hresponder
    | some reply =>
      rw [hreply] at hresponder
      obtain ⟨delay, hdelivery, hle⟩ := reply?_eq_some_iff.1 hreply
      obtain ⟨token, htoken, rfl⟩ := Option.map_eq_some_iff.1 hresponder
      exact ⟨delay, reply, token, hdelivery, hle, htoken, rfl⟩
  · rintro ⟨delay, reply, token, hdelivery, hle, htoken, rfl⟩
    rw [reply?_eq_some_iff.2 ⟨delay, hdelivery, hle⟩]
    simp [GetReply.report, htoken]

end Query

namespace Flight

def offer? (f : Flight) (target : NodeId) (salt : Option Bytes) : Option (Instant × Node × Item) :=
  (f.item? target salt).map fun item => (f.due, f.node, item)

variable {start timeout : Nat} {node : Node} {delivery : Delivery GetReply}

@[simp] theorem node_depart : (depart start timeout node delivery).node = node := by
  unfold depart
  split
  · rfl
  · split
    · rfl
    · split <;> rfl

theorem start_le_due_depart : start ≤ (depart start timeout node delivery).due := by
  unfold depart
  split
  · exact Nat.le_add_right ..
  · split
    · exact Nat.le_add_right ..
    · split <;> exact Nat.le_add_right ..

end Flight

namespace Query

variable (q : Query) (timeout : Nat) (target : NodeId) (salt : Option Bytes)

@[simp] theorem node_flight : (q.flight timeout).node = q.node := Flight.node_depart

theorem offer?_flight : (q.flight timeout).offer? target salt = q.offer? timeout target salt := by
  obtain ⟨start, node, request, delivery⟩ := q
  cases delivery with
  | never => rfl
  | after delay answer =>
    unfold flight offer? Flight.offer?
    by_cases hlate : timeout < delay
    · have hnot : ¬ delay < timeout := Nat.not_lt.2 (Nat.le_of_lt hlate)
      cases answer <;> simp [Flight.depart, Flight.item?, hlate, hnot]
    · cases answer with
      | error error => simp [Flight.depart, Flight.item?, hlate]
      | ok reply =>
        by_cases hlt : delay < timeout <;> simp [Flight.depart, Flight.item?, hlate, hlt]

theorem due_flight : (q.flight timeout).due = q.due timeout := by
  obtain ⟨start, node, request, delivery⟩ := q
  cases delivery with
  | never => rfl
  | after delay answer =>
    unfold flight due
    by_cases hlate : timeout < delay
    · simp [Flight.depart, hlate, Nat.min_eq_right (Nat.le_of_lt hlate)]
    · have hmin := Nat.min_eq_left (Nat.not_lt.1 hlate)
      cases answer <;> simp [Flight.depart, hlate, hmin]

theorem report_flight : (q.flight timeout).report = q.report timeout := by
  obtain ⟨start, node, request, delivery⟩ := q
  cases delivery with
  | never => rfl
  | after delay answer =>
    unfold flight report reply?
    by_cases hlate : timeout < delay
    · have hnot : ¬ delay ≤ timeout := Nat.not_le.2 hlate
      cases answer <;> simp [Flight.depart, Flight.report, hlate, hnot]
    · have hle : delay ≤ timeout := Nat.not_lt.1 hlate
      cases answer <;> simp [Flight.depart, Flight.report, hlate, hle]

end Query

namespace Transport

variable {σ : Type} (t : Transport σ)

/-- Sends the requests of a history anew: the queries among them, and the network that results. -/
def replay : σ → History → List Query × σ
  | network, [] => ([], network)
  | network, .asked time node request :: later =>
    let sent := t.get time node.address request network
    let rest := replay sent.2 later
    (⟨time, node, request, sent.1⟩ :: rest.1, rest.2)
  | network, .wrote time address request :: later =>
    replay (t.put time address request network).2 later
  | network, .unasked .. :: later => replay network later
  | network, .unwritten .. :: later => replay network later
  | network, .settled .. :: later => replay network later
  | network, .read .. :: later => replay network later
  | network, .built .. :: later => replay network later

/-- The queries of a history that began in some state of the network, in the order they were sent. -/
def queries (network : σ) (h : History) : List Query := (t.replay network h).1

theorem replay_append (network : σ) (h later : History) :
    t.replay network (h ++ later) =
      ((t.replay network h).1 ++ (t.replay (t.replay network h).2 later).1,
        (t.replay (t.replay network h).2 later).2) := by
  induction h generalizing network with
  | nil => rfl
  | cons event rest ih => cases event <;> simp [replay, ih]

@[simp] theorem replay_concat_settled (network : σ) (h : History) (time : Instant) (node : Node)
    (result : QueryEnd) : t.replay network (h ++ [.settled time node result]) = t.replay network h := by
  simp [replay_append, replay]

@[simp] theorem replay_concat_read (network : σ) (h : History) (time : Instant) (node : Node)
    (item : Item) : t.replay network (h ++ [.read time node item]) = t.replay network h := by
  simp [replay_append, replay]

theorem queries_asked (network : σ) (h : History) (time : Instant) (node : Node) (request : GetRequest) :
    t.queries network (h ++ [.asked time node request]) =
      t.queries network h ++
        [⟨time, node, request, (t.get time node.address request (t.replay network h).2).1⟩] := by
  unfold queries
  rw [replay_append]
  rfl

end Transport

namespace Event

def flight? : Event → Option Flight
  | settled time node result => some ⟨node, time, result⟩
  | _ => none

def read? : Event → Option (Instant × Node × Item)
  | read time node item => some (time, node, item)
  | _ => none

def asked? : Event → Option Node
  | asked _ node _ => some node
  | _ => none

/-- The node that get was called for, be it asked or not. -/
def called? : Event → Option Node
  | asked _ node _ | unasked _ node _ => some node
  | _ => none

/-- Whether an event is part of writing: an item is built, or put is called with it. -/
def isWriting : Event → Bool
  | built .. => true
  | wrote .. => true
  | unwritten .. => true
  | _ => false

end Event

namespace History

/-- The queries that are over, and how they ended. -/
def landings (h : History) : List Flight := h.filterMap Event.flight?

/-- The items taken by the reader, with the instant and the node of each. -/
def reads (h : History) : List (Instant × Node × Item) := h.filterMap Event.read?

def asked (h : History) : List Node := h.filterMap Event.asked?

def called (h : History) : List Node := h.filterMap Event.called?

@[simp] theorem landings_concat (h : History) (event : Event) :
    landings (h ++ [event]) = landings h ++ event.flight?.toList := by
  rw [landings, List.filterMap_append]
  cases hflight : event.flight? <;> simp [landings, hflight]

@[simp] theorem reads_concat (h : History) (event : Event) :
    reads (h ++ [event]) = reads h ++ event.read?.toList := by
  rw [reads, List.filterMap_append]
  cases hread : event.read? <;> simp [reads, hread]

@[simp] theorem asked_concat (h : History) (event : Event) :
    asked (h ++ [event]) = asked h ++ event.asked?.toList := by
  rw [asked, List.filterMap_append]
  cases hasked : event.asked? <;> simp [asked, hasked]

@[simp] theorem called_concat (h : History) (event : Event) :
    called (h ++ [event]) = called h ++ event.called?.toList := by
  rw [called, List.filterMap_append]
  cases hcalled : event.called? <;> simp [called, hcalled]

/-- Calls of get at some instant that were dropped. -/
def dropped (time : Instant) (request : GetRequest) (nodes : List Node) : History :=
  nodes.map (.unasked time · request)

section

variable (time : Instant) (request : GetRequest) (nodes : List Node) (h : History)

@[simp] theorem replay_append_dropped {σ : Type} (t : Transport σ) (network : σ) :
    t.replay network (h ++ dropped time request nodes) = t.replay network h := by
  have hnothing (network : σ) : t.replay network (dropped time request nodes) = ([], network) := by
    induction nodes with
    | nil => rfl
    | cons node nodes ih => exact ih
  rw [t.replay_append, hnothing, List.append_nil]

@[simp] theorem landings_append_dropped : landings (h ++ dropped time request nodes) = landings h := by
  simp [landings, dropped, List.filterMap_map, Function.comp_def, Event.flight?]

@[simp] theorem asked_append_dropped : asked (h ++ dropped time request nodes) = asked h := by
  simp [asked, dropped, List.filterMap_map, Function.comp_def, Event.asked?]

@[simp] theorem sent_append_dropped : sent (h ++ dropped time request nodes) = sent h := by
  simp [sent, dropped, List.filter_map, Function.comp_def, Event.isSending]

end

/-- As long as nothing is written, what gets keep of a network holds throughout a history. -/
theorem kept_of_reading {σ : Type} {t : Transport σ} {P : σ → Prop}
    (hkeep : ∀ time address request network, P network → P (t.get time address request network).2)
    {h : History} (honly : ∀ event ∈ h, event.isWriting = false) {network : σ} (hP : P network) :
    P (t.replay network h).2 ∧ ∀ q ∈ t.queries network h,
      ∃ before, P before ∧ q.delivery = (t.get q.start q.node.address q.request before).1 := by
  unfold Transport.queries
  induction h generalizing network with
  | nil => exact ⟨hP, fun _ hmem => absurd hmem List.not_mem_nil⟩
  | cons event later ih =>
    obtain ⟨hevent, hlater⟩ := List.forall_mem_cons.1 honly
    cases event with
    | asked time node request =>
      obtain ⟨hlast, hqueries⟩ := ih hlater (hkeep time node.address request network hP)
      exact ⟨hlast, List.forall_mem_cons.2 ⟨⟨network, hP, rfl⟩, hqueries⟩⟩
    | unasked time node request => exact ih hlater hP
    | settled time node result => exact ih hlater hP
    | read time node item => exact ih hlater hP
    | built time seen item => cases hevent
    | wrote time address request => cases hevent
    | unwritten time address request => cases hevent

theorem map_node_queries {σ : Type} (t : Transport σ) (network : σ) (h : History) :
    (t.queries network h).map Query.node = h.asked := by
  unfold Transport.queries
  induction h generalizing network with
  | nil => rfl
  | cons event rest ih =>
    cases event with
    | asked time node request => exact congrArg (node :: ·) (ih _)
    | unasked time node request => exact ih network
    | settled time node result => exact ih network
    | read time node item => exact ih network
    | built time seen item => exact ih network
    | wrote time address request => exact ih _
    | unwritten time address request => exact ih network

theorem map_address_gets (h : History) :
    h.gets.map (fun call => call.2.1) = h.called.map Node.address := by
  rw [gets, called, List.map_filterMap, List.map_filterMap]
  refine List.filterMap_congr fun event _ => ?_
  cases event <;> rfl

end History

end DhtStore
