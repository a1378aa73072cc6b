import DhtStore.Client
import DhtStore.Proofs.Discovery.Malformed
import DhtStore.Proofs.FanOut

namespace DhtStore

variable {σ τ S α : Type} {φ : σ → τ} {target : NodeId} {salt : Option Bytes}

namespace Transport

variable {t : Transport σ} {chosen : Nat → Bool}

/-- A network that leaves out the invalid values of some of its answers, which are chosen by the number of gets
    that came before. -/
def purge (t : Transport σ) (target : NodeId) (salt : Option Bytes) (chosen : Nat → Bool) :
    Transport (σ × Nat) where
  get := fun time address request (network, count) =>
    let sent := t.get time address request network
    (if chosen count then sent.1.purge target salt else sent.1, sent.2, count + 1)
  put := fun time address request (network, count) =>
    let sent := t.put time address request network
    (sent.1, sent.2, count)
  startingNodes := fun (network, _) => t.startingNodes network
  accepts := t.accepts

/-- A network that leaves out all invalid values. -/
def purgeAll (t : Transport σ) (target : NodeId) (salt : Option Bytes) : Transport σ :=
  { t with get := fun time address request network =>
      let sent := t.get time address request network
      (sent.1.purge target salt, sent.2) }

theorem isImage_purgeAll (t : Transport σ) : (t.purgeAll target salt).IsImage t id target salt :=
  ⟨fun _ _ _ _ => rfl, fun _ _ _ _ => rfl, fun _ => rfl, rfl⟩

/-- Whichever invalid values are missing already, without the others the answers are the same. -/
theorem isImage_purgeAll_of_purge :
    (t.purgeAll target salt).IsImage (t.purge target salt chosen) Prod.fst target salt := by
  refine ⟨fun time address request (network, count) => ?_, fun _ _ _ _ => rfl, fun _ => rfl, rfl⟩
  simp only [purge, purgeAll]
  cases chosen count <;> simp

end Transport

/-- What a builder leaves behind, in another world. -/
def Build.image (φ : σ → τ) (build : Build σ) : Build τ := { build with network := φ build.network }

/-- A builder that does the same as another one in the image of its world. -/
def Builder.IsImage (image : Builder τ) (builder : Builder σ) (φ : σ → τ) : Prop :=
  ∀ seen now network, image seen now (φ network) = (builder seen now network).image φ

/-- A builder that pays no heed to how many requests were counted. -/
def Builder.beside (builder : Builder σ) : Builder (σ × Nat) := fun seen now (network, count) =>
  (builder seen now network).image fun after => (after, count)

/-- A call on another network, and without the invalid values that came up. -/
def Outcome.image (φ : σ → τ) (target : NodeId) (salt : Option Bytes) (o : Outcome σ α) : Outcome τ α :=
  { o with network := φ o.network, history := o.history.map (Event.purge target salt) }

/-- Two calls do and come to the same. One of them is on a network that also counts requests. -/
structure Outcome.Alike (other : Outcome (σ × Nat) α) (run : Outcome σ α) : Prop where
  /-- The instant of the return and the result, with its stats and the outcomes of its writes. -/
  returned : other.returned = run.returned
  late : other.late = run.late
  gets : other.history.gets = run.history.gets
  puts : other.history.puts = run.history.puts
  sent : other.history.sent = run.history.sent
  /-- The items built, each with the sequence number that the builder was called with. -/
  built : other.history.filterMap Event.built? = run.history.filterMap Event.built?
  network : other.network.1 = run.network

/-- Calls with the same image are alike: only the values that the image lacks can tell them apart. -/
theorem Outcome.alike_of_image_eq {run : Outcome σ α} {other : Outcome (σ × Nat) α}
    (hsame : other.image Prod.fst target salt = run.image id target salt) : other.Alike run := by
  have hhistory : other.history.map (Event.purge target salt) = run.history.map (Event.purge target salt) :=
    congrArg Outcome.history hsame
  have hevents {β : Type} (f : Event → Option β) (hf : ∀ event, f (event.purge target salt) = f event) :
      other.history.filterMap f = run.history.filterMap f := by
    have hall (h : History) : (h.map (Event.purge target salt)).filterMap f = h.filterMap f := by
      rw [List.filterMap_map]
      exact List.filterMap_congr fun event _ => hf event
    rw [← hall other.history, hhistory, hall]
  have hsent : other.history.sent = run.history.sent := by
    unfold History.sent
    rw [← List.filterMap_eq_filter]
    refine hevents _ fun event => ?_
    cases event <;> rfl
  refine ⟨congrArg Outcome.returned hsame, congrArg Outcome.late hsame, hevents Event.get? ?_,
    hevents Event.put? ?_, hsent, hevents Event.built? ?_, congrArg Outcome.network hsame⟩
  all_goals
    intro event
    cases event <;> rfl

variable {t : Transport σ} {u : Transport τ}

theorem FanOut.send_image (himage : u.IsImage t φ target salt) (timeout : Nat) (now : Instant)
    (tasks : List Task) (network : σ) :
    send u timeout now tasks (φ network) =
      let sent := send t timeout now tasks network
      { slots := sent.slots, history := sent.history, network := φ sent.network } := by
  induction tasks generalizing network with
  | nil => rfl
  | cons task tasks ih =>
    obtain ⟨node, request⟩ := task
    cases request with
    | none => simp only [send, ih]
    | some request => simp only [send, himage.put, ih]

theorem FanOut.begin_image (himage : u.IsImage t φ target salt) (lifetime : Lifetime) (timeout : Nat)
    (nodes : List Node) (item : Item) (now : Instant) (network : σ) :
    begin u lifetime timeout nodes item now (φ network) =
      let sent := begin t lifetime timeout nodes item now network
      { slots := sent.slots, history := sent.history, network := φ sent.network } := by
  cases hover : lifetime.isOver now with
  | true =>
    rw [begin_of_isOver hover, begin_of_isOver hover]
    rfl
  | false => rw [begin_of_lasting hover, begin_of_lasting hover, send_image himage]

theorem fanOut_image (himage : u.IsImage t φ target salt) (lifetime : Lifetime) (timeout : Nat)
    (nodes : List Node) (item : Item) (now : Instant) (network : σ) :
    fanOut u lifetime timeout nodes item now (φ network) =
      let result := fanOut t lifetime timeout nodes item now network
      { result with network := φ result.network } := by
  unfold fanOut
  rw [FanOut.begin_image himage]

/-- A fan-out comes upon no values. -/
theorem map_purge_history_fanOut (lifetime : Lifetime) (timeout : Nat) (nodes : List Node) (item : Item)
    (now : Instant) (network : σ) :
    (fanOut t lifetime timeout nodes item now network).history.map (Event.purge target salt) =
      (fanOut t lifetime timeout nodes item now network).history := by
  refine (List.map_congr_left fun event hevent => ?_).trans (List.map_id _)
  obtain ⟨_, -, _, -, rfl⟩ := exists_node_of_mem_history_fanOut hevent
  split <;> rfl

namespace Client

/-- A client on another network. -/
def through (c : Client σ S) (u : Transport τ) : Client τ S := { c with transport := u }

variable {c : Client σ S} {u : Transport τ}

/-- A get on the image of a network is the image of the get on the network. -/
theorem get_image (himage : u.IsImage c.transport φ target salt) (lifetime : Lifetime) (seq : Option Seq)
    (now : Instant) (network : σ) :
    (c.through u).get lifetime target seq salt now (φ network) =
      (c.get lifetime target seq salt now network).image φ target salt := by
  let s := c.search lifetime target seq salt
  have hdiscover : ((c.through u).search lifetime target seq salt).discover Reader.best none now (φ network) =
      ((s.discover Reader.best none now network).1,
        (s.discover Reader.best none now network).2.image φ target salt) :=
    Search.discover_image (s := s) himage Reader.best none now network
  unfold get
  simp only [hdiscover]
  rfl

theorem write_image (himage : u.IsImage c.transport φ target salt) (lifetime : Lifetime) (build : Build σ)
    (d : Discovery σ S Seq) :
    (c.through u).write lifetime (build.image φ) (d.image φ target salt) =
      let written := c.write lifetime build d
      { written with network := φ written.network } :=
  fanOut_image himage ..

/-- A put on the image of a network is the image of the put on the network, if the builders agree. -/
theorem putWith_image (himage : u.IsImage c.transport φ target salt) {builder : Builder σ} {image : Builder τ}
    (hbuilder : image.IsImage builder φ) (lifetime : Lifetime) (now : Instant) (network : σ) :
    (c.through u).putWith lifetime target salt image now (φ network) =
      (c.putWith lifetime target salt builder now network).image φ target salt := by
  let s := c.search lifetime target none salt
  have hdiscover :
      ((c.through u).search lifetime target none salt).discover Reader.highestSeq 0 now (φ network) =
      ((s.discover Reader.highestSeq 0 now network).1,
        (s.discover Reader.highestSeq 0 now network).2.image φ target salt) :=
    Search.discover_image (s := s) himage Reader.highestSeq 0 now network
  unfold putWith
  dsimp only
  rw [hdiscover]
  cases (c.search lifetime target none salt).discover Reader.highestSeq 0 now network with
  | mk ending d =>
    cases ending with
    | exhausted seen =>
      let build := builder seen d.now d.network
      have hbuild : image seen (d.image φ target salt).now (d.image φ target salt).network = build.image φ :=
        hbuilder seen d.now d.network
      have hwritten := write_image himage lifetime build d
      have hevents : (c.write lifetime build d).history.map (Event.purge target salt) =
          (c.write lifetime build d).history := map_purge_history_fanOut ..
      simp only [hbuild, hwritten, Outcome.image, List.map_append, List.map_cons, build, hevents]
      rfl
    | interrupted reason => rfl
    | resolved item => rfl
    | endless => rfl

/-- Whichever invalid values are missing from the answers to a call, it returns the same at the same instant,
    with the same stats and the same outcomes of its writes; it asks the same nodes at the same instants, builds
    the same item from the same number, and writes it to the same nodes. -/
theorem invalid_values_do_nothing (c : Client σ S) (target : NodeId) (salt : Option Bytes)
    (chosen : Nat → Bool) (lifetime : Lifetime) (now : Instant) (network : σ) :
    let purged := c.through (c.transport.purge target salt chosen)
    (∀ seq, (purged.get lifetime target seq salt now (network, 0)).Alike
      (c.get lifetime target seq salt now network)) ∧
    ∀ builder : Builder σ, (purged.putWith lifetime target salt builder.beside now (network, 0)).Alike
      (c.putWith lifetime target salt builder now network) := by
  intro purged
  -- Both networks have the same image, the one that leaves out all invalid values.
  have himage : (c.transport.purgeAll target salt).IsImage c.transport id target salt :=
    c.transport.isImage_purgeAll
  have hother : (c.transport.purgeAll target salt).IsImage purged.transport Prod.fst target salt :=
    Transport.isImage_purgeAll_of_purge
  constructor
  · intro seq
    have hget := get_image himage lifetime seq now network
    exact Outcome.alike_of_image_eq ((get_image hother lifetime seq now (network, 0)).symm.trans hget)
  · intro builder
    have hbuilder : builder.IsImage builder id := fun _ _ _ => rfl
    have hbeside : builder.IsImage builder.beside Prod.fst := fun _ _ _ => rfl
    have hput := putWith_image himage hbuilder lifetime now network
    exact Outcome.alike_of_image_eq ((putWith_image hother hbeside lifetime now (network, 0)).symm.trans hput)

end Client

end DhtStore
