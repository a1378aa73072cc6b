import DhtStore.Proofs.Discovery.Steps

namespace DhtStore

/-- A reply without the fields that may carry an item. -/
def GetReply.withoutItem (reply : GetReply) : GetReply :=
  { reply with value := none, key := none, seq := none, signature := none }

/-- A reply, without the fields that may carry an item if it carries an invalid one. -/
def GetReply.purge (target : NodeId) (salt : Option Bytes) (reply : GetReply) : GetReply :=
  match reply.classify target salt with
  | .invalid _ => reply.withoutItem
  | _ => reply

def Delivery.purge (target : NodeId) (salt : Option Bytes) : Delivery GetReply → Delivery GetReply
  | .after delay answer => .after delay (answer.map (GetReply.purge target salt))
  | .never => .never

def QueryEnd.purge (target : NodeId) (salt : Option Bytes) : QueryEnd → QueryEnd
  | .replied reply inTime => .replied (reply.purge target salt) inTime
  | result => result

def Event.purge (target : NodeId) (salt : Option Bytes) : Event → Event
  | .settled time node result => .settled time node (result.purge target salt)
  | event => event

def Flight.purge (target : NodeId) (salt : Option Bytes) (f : Flight) : Flight :=
  { f with result := f.result.purge target salt }

def Move.purge (target : NodeId) (salt : Option Bytes) : Move → Move
  | .report flight rest => .report (flight.purge target salt) (rest.map (Flight.purge target salt))
  | .land flight rest => .land (flight.purge target salt) (rest.map (Flight.purge target salt))
  | .cut flight rest => .cut (flight.purge target salt) (rest.map (Flight.purge target salt))
  | move => move

variable {target : NodeId} {salt : Option Bytes}

namespace GetReply

/-- A reply with an invalid value becomes one without a value; all others stay. -/
theorem purge_cases (reply : GetReply) (target : NodeId) (salt : Option Bytes) :
    ((∃ fault, reply.classify target salt = .invalid fault) ∧ reply.purge target salt = reply.withoutItem) ∨
      reply.purge target salt = reply := by
  unfold purge
  split
  · next fault hclass => exact .inl ⟨⟨fault, hclass⟩, rfl⟩
  · exact .inr rfl

/-- Nothing valid is lost. -/
theorem item?_classify_purge (reply : GetReply) (target : NodeId) (salt : Option Bytes) :
    ((reply.purge target salt).classify target salt).item? = (reply.classify target salt).item? := by
  obtain ⟨⟨fault, hclass⟩, hpurge⟩ | hpurge := reply.purge_cases target salt
  · rw [hpurge, hclass]
    rfl
  · rw [hpurge]

/-- What a reply tells the engine has nothing to do with its value. -/
theorem report_purge (reply : GetReply) (target : NodeId) (salt : Option Bytes) (asked : Node) :
    (reply.purge target salt).report asked = reply.report asked := by
  obtain ⟨-, hpurge⟩ | hpurge := reply.purge_cases target salt
  · rw [hpurge]
    rfl
  · rw [hpurge]

@[simp] theorem purge_purge (reply : GetReply) :
    (reply.purge target salt).purge target salt = reply.purge target salt := by
  obtain ⟨-, hpurge⟩ | hpurge := reply.purge_cases target salt
  · rw [hpurge]
    rfl
  · rw [hpurge, hpurge]

end GetReply

@[simp] theorem Delivery.purge_purge (delivery : Delivery GetReply) :
    (delivery.purge target salt).purge target salt = delivery.purge target salt := by
  cases delivery with
  | never => rfl
  | after delay answer => cases answer <;> simp [purge, Except.map]

namespace Flight

theorem depart_purge (start timeout : Nat) (node : Node) (delivery : Delivery GetReply) :
    depart start timeout node (delivery.purge target salt) =
      (depart start timeout node delivery).purge target salt := by
  cases delivery with
  | never => rfl
  | after delay answer =>
    by_cases hlate : timeout < delay
    · simp [Delivery.purge, depart, hlate, purge, QueryEnd.purge]
    · cases answer <;> simp [Delivery.purge, Except.map, depart, hlate, purge, QueryEnd.purge]

theorem item?_purge (f : Flight) : (f.purge target salt).item? target salt = f.item? target salt := by
  obtain ⟨node, due, result⟩ := f
  cases result with
  | replied reply inTime =>
    cases inTime with
    | true => exact reply.item?_classify_purge target salt
    | false => rfl
  | _ => rfl

theorem report_purge (f : Flight) : (f.purge target salt).report = f.report := by
  obtain ⟨node, due, result⟩ := f
  cases result with
  | replied reply inTime => exact reply.report_purge target salt node
  | _ => rfl

end Flight

theorem picks_map {α β : Type} (f : α → β) (xs : List α) :
    picks (xs.map f) = (picks xs).map fun (x, others) => (f x, others.map f) := by
  induction xs with
  | nil => rfl
  | cons x xs ih => simp [picks, ih, Function.comp_def]

variable {σ τ S ρ : Type} {φ : σ → τ}

/-- A network is the image of another one that takes requests in the same way, and gives the same answers but for
    invalid values. -/
structure Transport.IsImage (u : Transport τ) (t : Transport σ) (φ : σ → τ) (target : NodeId)
    (salt : Option Bytes) : Prop where
  get : ∀ time address request network, u.get time address request (φ network) =
    ((t.get time address request network).1.purge target salt, φ (t.get time address request network).2)
  put : ∀ time address request network, u.put time address request (φ network) =
    ((t.put time address request network).1, φ (t.put time address request network).2)
  startingNodes : ∀ network, u.startingNodes (φ network) = t.startingNodes network
  accepts : u.accepts = t.accepts

/-- A discovery with another network, and without the invalid values that came up. -/
def Discovery.image (φ : σ → τ) (target : NodeId) (salt : Option Bytes) (d : Discovery σ S ρ) :
    Discovery τ S ρ :=
  { d with
    network := φ d.network
    inFlight := d.inFlight.map (Flight.purge target salt)
    ended := d.ended.map (Flight.purge target salt)
    history := d.history.map (Event.purge target salt) }

def Progress.image (φ : σ → τ) (target : NodeId) (salt : Option Bytes) : Progress σ S ρ → Progress τ S ρ
  | .ended ending d => .ended ending (d.image φ target salt)
  | .going d => .going (d.image φ target salt)

namespace Search

/-- A search on another network. -/
def through (s : Search σ S) (u : Transport τ) : Search τ S := { s with transport := u }

variable {s : Search σ S} {u : Transport τ} (himage : u.IsImage s.transport φ s.target s.salt)

theorem land_image (flight : Flight) (d : Discovery σ S ρ) :
    (s.through u).land (flight.purge s.target s.salt) (d.image φ s.target s.salt) =
      (s.land flight d).image φ s.target s.salt := by
  simp only [land, through, Discovery.image, Flight.item?_purge, List.map_append, List.map_singleton]
  rfl

theorem take_image (offer : Offer) (d : Discovery σ S ρ) :
    take offer (d.image φ target salt) = (take offer d).image φ target salt := by
  simp only [take, Discovery.image, List.map_append, List.map_singleton]
  rfl

theorem moves_image (d : Discovery σ S ρ) :
    (s.through u).moves (d.image φ s.target s.salt) = (s.moves d).map (Move.purge s.target s.salt) := by
  have hreader : (s.through u).readerMoves (d.image φ s.target s.salt) =
      (s.readerMoves d).map (Move.purge s.target s.salt) := by
    simp only [readerMoves, through, Discovery.image]
    cases s.lifetime.poll? d.now with
    | some reason => rfl
    | none =>
      cases d.offered with
      | nil => by_cases hatEnd : (d.atEnd || d.atEndLate) = true <;> simp [hatEnd, Move.purge]
      | cons offer rest => rfl
  have hengine : engineMoves (d.image φ s.target s.salt) = (engineMoves d).map (Move.purge s.target s.salt) := by
    simp only [engineMoves, Discovery.image, picks_map, List.map_map, Function.comp_def]
    by_cases hstopped : d.stopped = true <;> by_cases hseeded : d.seeded = true <;>
      simp [hstopped, hseeded, Move.purge]
  have hquery : (s.through u).queryMoves (d.image φ s.target s.salt) =
      (s.queryMoves d).map (Move.purge s.target s.salt) := by
    simp only [queryMoves, through, Discovery.image, picks_map, List.filter_map, List.map_map, Function.comp_def]
    by_cases hstopped : d.stopped = true
    · simp [hstopped]
    · cases s.lifetime.poll? d.now with
      | some reason => simp [hstopped, Move.purge, Function.comp_def]
      | none =>
        simp only [hstopped, Bool.false_eq_true, if_false, List.map_map, Function.comp_def]
        rfl
  have hsupervisor : (s.through u).supervisorMoves (d.image φ s.target s.salt) =
      (s.supervisorMoves d).map (Move.purge s.target s.salt) := by
    simp only [supervisorMoves, through, Discovery.image]
    by_cases hstopped : d.stopped = true <;> cases s.lifetime.poll? d.now <;> simp [hstopped, Move.purge]
  simp only [moves, hreader, hengine, hquery, hsupervisor, List.map_append]

theorem pass_image (d : Discovery σ S ρ) :
    (s.through u).pass (d.image φ s.target s.salt) = (s.pass d).image φ s.target s.salt := by
  have hdues : (d.image φ s.target s.salt).inFlight.map Flight.due = d.inFlight.map Flight.due :=
    List.map_map ..
  have hwakes : (s.through u).wakesAt? (d.image φ s.target s.salt) = s.wakesAt? d := by
    unfold wakesAt?
    rw [hdues]
    rfl
  unfold pass
  rw [hwakes]
  cases s.wakesAt? d <;> rfl

include himage

theorem ask_image (d : Discovery σ S ρ) (node : Node) :
    (s.through u).ask (d.image φ s.target s.salt) node = (s.ask d node).image φ s.target s.salt := by
  cases hover : s.lifetime.isOver d.now with
  | true =>
    have hsame : (s.through u).lifetime.isOver (d.image φ s.target s.salt).now = true := hover
    rw [ask_of_isOver hover, ask_of_isOver hsame]
    simp only [Discovery.image, List.map_append, List.map_singleton]
    rfl
  | false =>
    have hsame : (s.through u).lifetime.isOver (d.image φ s.target s.salt).now = false := hover
    have hsent : (s.through u).transport.get d.now node.address s.request (φ d.network) = _ :=
      himage.get d.now node.address s.request d.network
    have hrequest : (s.through u).request = s.request := rfl
    rw [ask_of_lasting hover, ask_of_lasting hsame]
    simp only [Discovery.image, hrequest, hsent, Flight.depart_purge, List.map_append, List.map_singleton]
    rfl

theorem foldl_ask_image (nodes : List Node) (d : Discovery σ S ρ) :
    nodes.foldl (s.through u).ask (d.image φ s.target s.salt) =
      (nodes.foldl s.ask d).image φ s.target s.salt := by
  induction nodes generalizing d with
  | nil => rfl
  | cons node nodes ih => rw [List.foldl_cons, ask_image himage, ih, List.foldl_cons]

theorem advance_image (d : Discovery σ S ρ) :
    (s.through u).advance (d.image φ s.target s.salt) = (s.advance d).image φ s.target s.salt := by
  let wanted := s.engine.next (d.inFlight.length + d.ended.length) d.engine
  have hwanted : (s.through u).engine.next ((d.image φ s.target s.salt).inFlight.length +
      (d.image φ s.target s.salt).ended.length) (d.image φ s.target s.salt).engine = wanted := by
    simp [wanted, Discovery.image, through]
  have hsent : wanted.1.foldl (s.through u).ask { d.image φ s.target s.salt with engine := wanted.2 } =
      (wanted.1.foldl s.ask { d with engine := wanted.2 }).image φ s.target s.salt :=
    foldl_ask_image himage wanted.1 { d with engine := wanted.2 }
  simp only [advance, hwanted, hsent]
  simp only [Discovery.image, List.isEmpty_map]
  rfl

theorem seed_image (d : Discovery σ S ρ) :
    (s.through u).seed (d.image φ s.target s.salt) = (s.seed d).image φ s.target s.salt := by
  have hseeded : (s.through u).engine.seed (s.through u).transport.accepts
      ((s.through u).transport.startingNodes (φ d.network)) d.engine =
      s.engine.seed s.transport.accepts (s.transport.startingNodes d.network) d.engine := by
    rw [← himage.startingNodes d.network, ← himage.accepts]
    rfl
  have hengine : (d.image φ s.target s.salt).engine = d.engine := rfl
  have hnetwork : (d.image φ s.target s.salt).network = φ d.network := rfl
  unfold seed
  dsimp only
  rw [hengine, hnetwork, hseeded]
  exact advance_image himage { d with engine := _, seeded := true }

theorem resume_image (flight : Flight) (d : Discovery σ S ρ) :
    (s.through u).resume (flight.purge s.target s.salt) (d.image φ s.target s.salt) =
      (s.resume flight d).image φ s.target s.salt := by
  have haccepts : (s.through u).transport.accepts = s.transport.accepts := himage.accepts
  unfold resume
  rw [haccepts, Flight.report_purge]
  exact advance_image himage
    { d with engine := s.engine.settle s.transport.accepts flight.node flight.report d.engine }

theorem perform_image (read : Reader ρ) (d : Discovery σ S ρ) (move : Move) :
    (s.through u).perform read (d.image φ s.target s.salt) (move.purge s.target s.salt) =
      (s.perform read d move).image φ s.target s.salt := by
  cases move with
  | read offer rest =>
    have htaken : take offer { d.image φ s.target s.salt with offered := rest } =
        (take offer { d with offered := rest }).image φ s.target s.salt :=
      take_image offer { d with offered := rest }
    simp only [perform, Move.purge, htaken]
    have hreader : (d.image φ s.target s.salt).reader = d.reader := rfl
    rw [hreader]
    cases read d.reader offer.item <;> rfl
  | report flight rest => exact congrArg Progress.going (resume_image himage flight { d with ended := rest })
  | land flight rest => exact congrArg Progress.going (land_image flight { d with inFlight := rest })
  | seed => exact congrArg Progress.going (seed_image himage d)
  | cut flight rest =>
    simp only [perform, Move.purge, Discovery.image, Progress.image, List.map_append, List.map_singleton]
    rfl
  | finish | interrupt _ | stop => rfl

theorem step_image (read : Reader ρ) (d : Discovery σ S ρ) :
    (s.through u).step read (d.image φ s.target s.salt) = (s.step read d).image φ s.target s.salt := by
  have hmove : ((s.through u).moves (d.image φ s.target s.salt))[(s.through u).schedule
      (d.image φ s.target s.salt).moved % ((s.through u).moves (d.image φ s.target s.salt)).length]? =
      (s.moves d)[s.schedule d.moved % (s.moves d).length]?.map (Move.purge s.target s.salt) := by
    rw [moves_image, List.length_map, List.getElem?_map]
    rfl
  unfold step
  rw [hmove]
  cases (s.moves d)[s.schedule d.moved % (s.moves d).length]? with
  | none => exact pass_image d
  | some move => exact perform_image himage read { d with moved := d.moved + 1 } move

theorem run_image (read : Reader ρ) (fuel : Nat) (d : Discovery σ S ρ) :
    (s.through u).run read fuel (d.image φ s.target s.salt) =
      ((s.run read fuel d).1, (s.run read fuel d).2.image φ s.target s.salt) := by
  induction fuel generalizing d with
  | zero => rfl
  | succ fuel ih =>
    simp only [run, step_image himage]
    cases s.step read d with
    | ended ending last => rfl
    | going next => exact ih next

/-- A discovery on the image of a network is the image of a discovery on the network: it comes to the same
    end. -/
theorem discover_image (read : Reader ρ) (reader : ρ) (now : Instant) (network : σ) :
    (s.through u).discover read reader now (φ network) =
      ((s.discover read reader now network).1,
        (s.discover read reader now network).2.image φ s.target s.salt) := by
  have hstarting : (s.through u).transport.startingNodes (φ network) = s.transport.startingNodes network :=
    himage.startingNodes network
  have hinitial : (s.through u).initial now (φ network) reader =
      (s.initial now network reader).image φ s.target s.salt := rfl
  unfold discover
  rw [hstarting, hinitial]
  exact run_image himage read _ _

end Search

end DhtStore
