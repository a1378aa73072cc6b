import DhtStore.Proofs.Client.Placement
import DhtStore.Proofs.Testnet.Succession

namespace DhtStore

open Reader Testnet

variable {w : Iterative.Width} {t : Testnet} {target : NodeId} {salt : Option Bytes} {seed : Seed}
  {value : Bytes}

/-- A signed item is accepted as such if its signature verifies. -/
theorem GetReply.classify_sign {seq : Seq}
    (htarget : mutableTarget (Ed25519.publicKey seed).bytes salt = target) (hhash : immutableTarget value ≠ target)
    (hsigned : Ed25519.verifies (Ed25519.publicKey seed).bytes (signable seq value salt)
      (Ed25519.sign seed (signable seq value salt)).bytes = true) :
    (ofMutable (.sign seed value seq salt)).classify target salt =
      .mutable (.sign seed value seq salt) := by
  refine classify_eq_mutable_iff.2 ⟨⟨rfl, rfl, rfl, rfl⟩, hhash, htarget, rfl, ?_, hsigned⟩
  exact congrArg NodeId.octets htarget

namespace Client

/-- A client of a network of storage nodes that waits for answers. Its lookups ask all nodes that they begin
    with at once, and its puts write to as many nodes as replies name. -/
structure Joins (c : Client Testnet Iterative.Lookup) (w : Iterative.Width) : Prop where
  transport : c.transport = Testnet.transport
  engine : c.engine = .iterative w
  wide : bootstrapSize ≤ w.alpha
  k : w.k = bucketSize
  patient : 0 < c.config.requestTimeout

variable {c : Client Testnet Iterative.Lookup} {lifetime : Lifetime} {now : Instant}

theorem Joins.spans (hjoins : c.Joins w) (hformed : t.WellFormed) (hopen : t.OpenTo target salt)
    (lifetime : Lifetime) : (c.search lifetime target none salt).Spans w t where
  transport := hjoins.transport
  engine := hjoins.engine
  alpha := Nat.lt_of_lt_of_le (by decide) hjoins.wide
  k := Nat.le_of_eq hjoins.k.symm
  formed := hformed
  wide := hjoins.wide
  replies n hn := by
    rw [hopen.honest n hn]
    rfl

/-- A get that nothing cuts short finds the item that leads. -/
theorem get_of_leads (hjoins : c.Joins w) (hforever : lifetime.endsAt? = none) (hformed : t.WellFormed)
    (hopen : t.OpenTo target salt) {item : MutableItem} (hleads : t.Leads target item)
    (hclass : (GetReply.ofMutable item).classify target salt = .mutable item) :
    ∃ time found, (c.get lifetime target none salt now t).returned = some (time, .ok found) ∧
      found.item = .mutable item := by
  have hspans := hjoins.spans hformed hopen lifetime
  cases hdiscover : (c.search lifetime target none salt).discover best none now t with
  | mk ending d =>
    have hnatural := natural_of_forever hjoins.engine hforever hdiscover
    cases ending with
    | resolved held =>
      obtain ⟨state, arrival, node, other, hread, hoffer, -⟩ := Search.resolved_spec hdiscover
      have hmutable := Search.isMutable_of_mem_offers hspans.toCrosses rfl hopen hdiscover hoffer
      cases (eq_of_best_resolved hread).2.symm.trans hmutable
    | exhausted kept =>
      obtain rfl := Search.best_of_leads hspans rfl hjoins.patient hopen hleads hclass hdiscover
      refine ⟨d.now, ⟨.mutable item, c.engine.stats d.engine⟩, ?_, rfl⟩
      simp only [get, hdiscover]
      rfl
    | interrupted reason => cases hnatural
    | endless => cases hnatural

/-- A put that nothing cuts short stores an item at the nodes closest to its target, where it takes the lead,
    if it is built newer than all that the put comes upon. -/
theorem put_of_welcomes (hjoins : c.Joins w) (hforever : lifetime.endsAt? = none) (hformed : t.WellFormed)
    (hsome : t.nodes ≠ []) {item : MutableItem} (hwelcomes : t.Welcomes target salt item)
    {build : Seq → Item} (hbuild : build (t.topSeq target) = .mutable item) :
    let put := c.put lifetime target salt build now t
    (∃ finished receipt, put.returned = some (finished, .ok receipt) ∧
      receipt.writes = (t.closest target bucketSize).map fun n => ⟨n.vouched, .stored⟩) ∧
    (put.history.gets.map fun sent => sent.2.1).Perm ((t.surveyed target).map StorageNode.address) ∧
    (∀ n ∈ put.network.closest target bucketSize, n.Holds target (.mutable item)) ∧
    put.network.WellFormed ∧ put.network.OpenTo target salt ∧ put.network.Leads target item := by
  intro put
  have hspans := hjoins.spans hformed hwelcomes.toOpenTo lifetime
  obtain ⟨seen, d, hdiscover⟩ := exhausted_of_forever hjoins.engine hforever target salt now t
  obtain rfl := Search.seen_of_exhausted hspans rfl hjoins.patient hwelcomes.toOpenTo hdiscover
  have hcovered := Search.covered_of_exhausted hspans hdiscover
  obtain ⟨hviews, hstill⟩ := hcovered.network
  have hstillWelcomes : d.network.Welcomes target salt item :=
    hwelcomes.congr hviews (Search.hasRoom_of_exhausted hspans.transport hwelcomes.room hdiscover)
  obtain ⟨⟨finished, hreturned⟩, hwritten, hgets⟩ := put_of_spans hspans hjoins.k hforever build hdiscover
    fun n hn => hbuild ▸ hstillWelcomes.accepts hstill hn
  -- The discovery has used what the nodes hold, but by their views they are the nodes that it began with.
  have hnetwork : put.network = d.network.overwritten target item := by
    have hclosest : (d.network.closest target bucketSize).map StorageNode.address =
        (t.closest target bucketSize).map StorageNode.address :=
      map_closest_congr hviews target bucketSize StorageNode.View.address
    rw [overwritten, hclosest, ← hbuild]
    exact hwritten
  have hstillSome : d.network.nodes ≠ [] := by
    obtain ⟨n, hn⟩ := List.exists_mem_of_ne_nil _ hsome
    obtain ⟨m, hm, -⟩ := exists_view_eq hviews.symm hn
    exact List.ne_nil_of_mem hm
  refine ⟨⟨finished, _, hreturned, ?_⟩, ?_, ?_⟩
  · refine List.map_congr_left fun n hn => ?_
    have hhonest : n.view.behavior = .honest := hwelcomes.honest n (mem_of_mem_closest hn)
    simp only [StorageNode.View.outcome, hhonest]
  · have haddresses := hcovered.addresses
    rwa [← hgets] at haddresses
  · rw [hnetwork]
    exact ⟨holds_overwritten hstill hstillWelcomes, hstill.written _ _,
      openTo_overwritten hstill hstillWelcomes, leads_overwritten hstill hstillWelcomes hstillSome⟩

theorem getMutable_of_get {σ S : Type} {c : Client σ S} {key : PublicKey} {seq : Option Seq} {network : σ}
    {time : Instant} {found : Found} {item : MutableItem} (hitem : found.item = .mutable item)
    (hreturned : (c.get lifetime (mutableTarget key.bytes salt) seq salt now network).returned =
      some (time, .ok found)) :
    (c.getMutable lifetime key salt seq now network).returned = some (time, .ok item) := by
  simp only [getMutable, Outcome.mapResult, hreturned, Option.map_some, Except.bind, hitem]

/-- A client reads what it wrote, and so does any other, on a network of honest nodes that hold nothing at the
    target but acceptable mutable items with sequence numbers that can be exceeded. A put of a value that nothing
    cuts short stores it at each of the nodes closest to the target, under the sequence number that follows the
    highest held by the nodes that the put asked. Every get after it returns exactly this item. Of signatures it
    is assumed that the one made for the item verifies. -/
theorem read_your_writes (hjoins : c.Joins w) (hforever : lifetime.endsAt? = none) (hformed : t.WellFormed)
    (hsome : t.nodes ≠ []) (hroom : t.HasRoom) (hopen : t.OpenTo target salt)
    (hbelow : ∀ n ∈ t.nodes, ∀ held, n.mutables.peek? target = some held → held.seq < Int64.maxValue)
    (htarget : mutableTarget (Ed25519.publicKey seed).bytes salt = target)
    (hvalue : value.length ≤ StorageNode.maxValueSize)
    (hsalt : (salt.getD []).length ≤ StorageNode.maxSaltSize)
    (hhash : immutableTarget value ≠ target)
    (hsigned : Ed25519.verifies (Ed25519.publicKey seed).bytes
      (signable ((t.topSeq target).plus 1) value salt)
      (Ed25519.sign seed (signable ((t.topSeq target).plus 1) value salt)).bytes = true)
    (now : Instant) :
    let item := MutableItem.sign seed value ((t.topSeq target).plus 1) salt
    let put := c.putMutable lifetime seed value salt now t
    item.seq.toInt = (t.topSeq target).toInt + 1 ∧
      (∃ finished receipt, put.returned = some (finished, .ok receipt) ∧
        receipt.writes = (t.closest target bucketSize).map (fun n => ⟨n.vouched, .stored⟩) ∧
        receipt.writes.length = min t.nodes.length bucketSize) ∧
      (put.history.gets.map fun sent => sent.2.1).Perm ((t.surveyed target).map StorageNode.address) ∧
      (∀ n ∈ put.network.closest target bucketSize, n.Holds target (.mutable item)) ∧
      ∀ (reader : Client Testnet Iterative.Lookup) (width : Iterative.Width) (lifetime : Lifetime)
        (now : Instant), reader.Joins width → lifetime.endsAt? = none →
          ∃ time, (reader.getMutable lifetime (Ed25519.publicKey seed) salt none now put.network).returned =
            some (time, .ok item) := by
  subst htarget
  intro item put
  -- Only here it matters that the numbers held can be exceeded: the next number must not be clamped.
  have htop : t.topSeq _ < Int64.maxValue := topSeq_lt (by decide) hbelow
  have hseq : item.seq.toInt = (t.topSeq _).toInt + 1 := Seq.toInt_plus_one htop
  have hvalid := GetReply.classify_sign rfl hhash hsigned
  have hwelcomes : t.Welcomes _ salt item :=
    { toOpenTo := hopen, room := hroom, valid := hvalid, valueSize := hvalue, saltSize := hsalt
      newest := by
        rw [Int64.lt_iff_toInt_lt, hseq]
        omega }
  let build (seen : Seq) : Item := .mutable (.sign seed value (seen.plus 1) salt)
  have hbuild : build (t.topSeq _) = .mutable item := rfl
  obtain ⟨⟨finished, receipt, hreturned, hwrites⟩, hasked, hholds, hafter, hstillOpen, hleads⟩ :=
    put_of_welcomes hjoins hforever hformed hsome hwelcomes hbuild
  refine ⟨hseq, ⟨finished, receipt, hreturned, hwrites, ?_⟩, hasked, hholds, ?_⟩
  · rw [hwrites, List.length_map, length_closest]
  · intro reader width lifetime now hreader hlasting
    obtain ⟨time, found, hfound, hitem⟩ := get_of_leads hreader hlasting hafter hstillOpen hleads hvalid
    exact ⟨time, getMutable_of_get hitem hfound⟩

/-- Two nodes hold an item with the sequence number 7. -/
theorem read_your_writes_of_two :
    let value := Bytes.ofAscii "newer"
    let ids : List NodeId := [default, immutableTarget [1]]
    let t := (Testnet.create 2 ids (.seeded 0 (List.replicate 4 default))).seed (.mutable .sample)
    let c : Client Testnet Iterative.Lookup := { transport := Testnet.transport, engine := .iterative {} }
    let put := c.putMutable {} default value none 0 t
    ∃ time, (c.getMutable {} MutableItem.sample.key none none 5 put.network).returned =
      some (time, .ok (.sign default value 8 none)) := by
  intro value ids t c put
  have harises : t.Arises := .seed _ (.create (by decide) (by decide +kernel))
  obtain ⟨hnodes, hsample, hnext, hhash, hsigned⟩ :
      (∀ n ∈ t.nodes, n.behavior = .honest ∧ 0 < n.mutables.capacity ∧
        n.immutables.peek? MutableItem.sample.target = none ∧
        n.mutables.peek? MutableItem.sample.target = some .sample) ∧
      (GetReply.ofMutable .sample).classify MutableItem.sample.target none = .mutable .sample ∧
      (t.topSeq MutableItem.sample.target).plus 1 = 8 ∧
      immutableTarget value ≠ MutableItem.sample.target ∧
      Ed25519.verifies MutableItem.sample.key.bytes (signable 8 value none)
        (Ed25519.sign default (signable 8 value none)).bytes = true := by
    decide +kernel
  have hopen : t.OpenTo MutableItem.sample.target none := by
    refine ⟨fun n hn => (hnodes n hn).1, fun n hn => (hnodes n hn).2.2.1, fun n hn held hheld => ?_⟩
    cases (hnodes n hn).2.2.2.symm.trans hheld
    exact ⟨.sample, hsample⟩
  have hbelow : ∀ n ∈ t.nodes, ∀ held, n.mutables.peek? MutableItem.sample.target = some held →
      held.seq < Int64.maxValue := by
    intro n hn held hheld
    cases (hnodes n hn).2.2.2.symm.trans hheld
    decide
  have hjoins : c.Joins {} := ⟨rfl, rfl, by decide, rfl, by decide⟩
  have hforever : ({} : Lifetime).endsAt? = none := rfl
  have hvalue : value.length ≤ StorageNode.maxValueSize := by decide
  obtain ⟨-, -, -, -, hread⟩ := read_your_writes hjoins hforever harises.wellFormed (by decide)
    (fun n hn => (hnodes n hn).2.1) hopen hbelow rfl hvalue (by decide) hhash (hnext ▸ hsigned) 0
  obtain ⟨time, hreturned⟩ := hread c {} {} 5 hjoins hforever
  rw [hnext] at hreturned
  exact ⟨time, hreturned⟩

end Client

end DhtStore
