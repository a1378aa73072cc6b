import DhtStore.Discovery
import DhtStore.FanOut

namespace DhtStore

/-- How long, in milliseconds, a client waits for a single answer. A timeout may be of any length, as there is no last
    instant. -/
structure Config where
  /-- For the answer to a get. -/
  requestTimeout : Nat := 8000
  /-- For the answer to a put. -/
  writeTimeout : Nat := 8000
deriving DecidableEq

inductive Failure
  | notFound
  | interrupted (reason : Interruption)
deriving DecidableEq

def Interruption.message : Interruption → String
  | canceled => "operation canceled"
  | deadlineExceeded => "deadline exceeded"

def Failure.message : Failure → String
  | notFound => "value not found"
  | interrupted reason => reason.message

/-- What a call comes to. -/
structure Outcome (σ α : Type) where
  /-- The instant of its return and the result; none if it waits for ever. -/
  returned : Option (Instant × Except Failure α)
  network : σ
  history : History
  /-- What is done in the call's name at the instant of its return, but after it. -/
  late : History := []

/-- Changes the result of a call that succeeded, or finds that it failed after all. -/
def Outcome.mapResult {σ α β : Type} (o : Outcome σ α) (f : α → Except Failure β) : Outcome σ β :=
  { o with returned := o.returned.map fun (time, result) => (time, result.bind f) }

structure Found where
  item : Item
  stats : LookupStats

/-- What a caller's builder leaves behind: the item it made, and the world, in which it may have had the
    call cancelled at some instant. -/
structure Build (σ : Type) where
  item : Item
  cancelAt : Option Instant := none
  network : σ

/-- A caller's code that makes the item to put from the highest sequence number found. It is called at
    some instant and takes no time. -/
abbrev Builder (σ : Type) := Seq → Instant → σ → Build σ

/-- A builder that makes an item and does nothing else. -/
def Builder.ofFunction {σ : Type} (build : Seq → Item) : Builder σ :=
  fun seen _ network => { item := build seen, network }

/-- The result of a put: every node of the write set with the outcome there. -/
structure Receipt where
  target : NodeId
  stats : LookupStats
  writes : List Write

namespace Receipt

/-- The nodes that acknowledged the item. -/
def storedAt (r : Receipt) : List Node :=
  r.writes.filterMap fun w => if w.outcome = .stored then some w.node else none

/-- The nodes that refused the item or did not answer in time, and how they failed. -/
def failures (r : Receipt) : List (Node × RequestError) :=
  r.writes.filterMap fun w =>
    match w.outcome with
    | .failed error => some (w.node, error)
    | _ => none

end Receipt

structure Client (σ S : Type) where
  transport : Transport σ
  engine : Engine S
  config : Config := {}
  schedule : Schedule := Schedule.inTurn

namespace Client

variable {σ S : Type} (c : Client σ S)

def search (lifetime : Lifetime) (target : NodeId) (seq : Option Seq) (salt : Option Bytes) :
    Search σ S :=
  { transport := c.transport, engine := c.engine, schedule := c.schedule
    timeout := c.config.requestTimeout, lifetime, target, seq, salt }

/-- Finds the item at a target: the first valid immutable item, or of the valid mutable ones that
    with the highest sequence number, the latest of several. With `seq`, nodes are asked for more
    recent items only. -/
def get (lifetime : Lifetime) (target : NodeId) (seq : Option Seq) (salt : Option Bytes)
    (now : Instant) (network : σ) : Outcome σ Found :=
  let s := c.search lifetime target seq salt
  let (ending, d) := s.discover Reader.best none now network
  let found (item : Item) : Found := ⟨item, s.engine.stats d.engine⟩
  { returned :=
      match ending with
      | .resolved item => some (d.now, .ok (found item))
      | .exhausted (some item) => some (d.now, .ok (found (.mutable item)))
      | .exhausted none => some (d.now, .error .notFound)
      | .interrupted reason => some (d.now, .error (.interrupted reason))
      | .endless => none
    network := d.network
    history := d.history
    late := s.overrun ending d }

/-- Writes a built item to the closest nodes that issued a token in a discovery, as it ends. -/
def write (lifetime : Lifetime) (build : Build σ) (d : Discovery σ S Seq) : FanOut.Result σ :=
  fanOut c.transport (lifetime.cancelledAt build.cancelAt) c.config.writeTimeout
    (c.engine.closest d.engine).writable build.item d.now build.network

/-- Puts the item that the builder makes of the highest sequence number found (0 if there is none) at
    the closest nodes that issued a token. Only an interruption of the discovery fails a put; one by the
    builder just keeps the item from being written. -/
def putWith (lifetime : Lifetime) (target : NodeId) (salt : Option Bytes) (builder : Builder σ)
    (now : Instant) (network : σ) : Outcome σ Receipt :=
  let s := c.search lifetime target none salt
  let (ending, d) := s.discover Reader.highestSeq 0 now network
  match ending with
  | .exhausted seen =>
    let build := builder seen d.now d.network
    let written := c.write lifetime build d
    { returned := some (written.finished, .ok ⟨target, s.engine.stats d.engine, written.writes⟩)
      network := written.network
      history := d.history ++ .built d.now seen build.item :: written.history }
  | .interrupted reason =>
    { returned := some (d.now, .error (.interrupted reason))
      network := d.network
      history := d.history
      late := s.overrun ending d }
  | _ => { returned := none, network := d.network, history := d.history }

/-- Puts the item that a function makes of the highest sequence number found. -/
def put (lifetime : Lifetime) (target : NodeId) (salt : Option Bytes) (build : Seq → Item)
    (now : Instant) (network : σ) : Outcome σ Receipt :=
  c.putWith lifetime target salt (.ofFunction build) now network

def getImmutable (lifetime : Lifetime) (target : NodeId) (now : Instant) (network : σ) :
    Outcome σ Bytes :=
  (c.get lifetime target none none now network).mapResult fun found =>
    match found.item with
    | .immutable value => .ok value
    | .mutable _ => .error .notFound

def putImmutable (lifetime : Lifetime) (value : Bytes) (now : Instant) (network : σ) :
    Outcome σ Receipt :=
  c.put lifetime (immutableTarget value) none (fun _ => .immutable value) now network

/-- Finds the most recent item of a key and a salt. -/
def getMutable (lifetime : Lifetime) (key : PublicKey) (salt : Option Bytes) (seq : Option Seq)
    (now : Instant) (network : σ) : Outcome σ MutableItem :=
  (c.get lifetime (mutableTarget key.bytes salt) seq salt now network).mapResult fun found =>
    match found.item with
    | .mutable item => .ok item
    | .immutable _ => .error .notFound

/-- Signs a value under the sequence number that follows the highest found, and puts it. -/
def putMutable (lifetime : Lifetime) (seed : Seed) (value : Bytes) (salt : Option Bytes)
    (now : Instant) (network : σ) : Outcome σ Receipt :=
  c.put lifetime (mutableTarget (Ed25519.publicKey seed).bytes salt) salt
    (fun seen => .mutable (.sign seed value (seen.plus 1) salt)) now network

end Client

end DhtStore
