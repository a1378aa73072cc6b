import DhtStore.Proofs.Client.Put
import DhtStore.Proofs.Testnet.Puts

namespace DhtStore

open Reader Testnet

variable {w : Iterative.Width} {t : Testnet} {target : NodeId} {salt : Option Bytes}

namespace Client

section

variable {σ : Type} {c : Client σ Iterative.Lookup} {lifetime : Lifetime}

theorem natural_of_forever {ρ : Type} {read : Reader ρ} {init : ρ} {now : Instant} {network : σ}
    {ending : Ending ρ} {d : Discovery σ Iterative.Lookup ρ} (hengine : c.engine = .iterative w)
    (hforever : lifetime.endsAt? = none)
    (hdiscover : (c.search lifetime target none salt).discover read init now network = (ending, d)) :
    ending.isNatural = true := by
  have hlawful : c.engine.Lawful := hengine ▸ .iterative w
  have hatEnd : c.engine.atEnd ≠ .hang := by
    rw [hengine]
    nofun
  exact Search.natural_of_forever hlawful hatEnd hforever hdiscover

/-- The discovery of a put that nothing cuts short ends once there is nothing left to ask. -/
theorem exhausted_of_forever (hengine : c.engine = .iterative w) (hforever : lifetime.endsAt? = none)
    (target : NodeId) (salt : Option Bytes) (now : Instant) (network : σ) :
    ∃ seen d, (c.search lifetime target none salt).discover highestSeq 0 now network =
      (.exhausted seen, d) := by
  cases hdiscover : (c.search lifetime target none salt).discover highestSeq 0 now network with
  | mk ending d =>
    have hnatural := natural_of_forever hengine hforever hdiscover
    cases ending with
    | resolved item => exact absurd hdiscover Search.not_resolved_of_highestSeq
    | exhausted seen => exact ⟨seen, d, rfl⟩
    | interrupted reason => cases hnatural
    | endless => cases hnatural

end

variable {c : Client Testnet Iterative.Lookup} {lifetime : Lifetime} {now : Instant}
  {d : Discovery Testnet Iterative.Lookup Seq} {seen : Seq}

/-- A put that has covered its part of a network writes to the nodes that are closest to the target. -/
theorem writable_of_spans (hspans : (c.search lifetime target none salt).Spans w t) (hk : w.k = bucketSize)
    (hdiscover : (c.search lifetime target none salt).discover highestSeq 0 now t = (.exhausted seen, d)) :
    (c.engine.closest d.engine).writable =
      (d.network.closest target bucketSize).map StorageNode.vouched := by
  have hengine : c.engine = .iterative w := hspans.engine
  have hcovered := Search.covered_of_exhausted hspans hdiscover
  have hvouched : (d.network.closest target bucketSize).map StorageNode.vouched =
      (t.closest target bucketSize).map StorageNode.vouched :=
    map_closest_congr hcovered.network.1 target bucketSize fun v : StorageNode.View =>
      (⟨v.id, v.address, some (v.secrets.generate clientAddress)⟩ : Node)
  have hranked : d.engine.responders.nodes =
      (sortByDistance StorageNode.id target (t.surveyed target)).map StorageNode.vouched :=
    hcovered.responders
  rw [hengine, hvouched]
  change (d.engine.responders.nodes.take w.k).filter Node.isWritable = _
  rw [hranked, ← List.map_take, hk, take_sortByDistance_surveyed hspans.formed]
  exact List.filter_eq_self.2 (List.forall_mem_map.2 fun n _ => rfl)

/-- What the writes of a put come to that has covered its part of a network, if the nodes closest to the target
    have nothing to object to in the item. -/
theorem write_of_spans (hspans : (c.search lifetime target none salt).Spans w t) (hk : w.k = bucketSize)
    (hforever : lifetime.endsAt? = none) {item : Item}
    (hdiscover : (c.search lifetime target none salt).discover highestSeq 0 now t = (.exhausted seen, d))
    (haccepts : ∀ n ∈ d.network.closest target bucketSize, n.Accepts item) :
    let written := c.write lifetime { item, network := d.network } d
    let closest := t.closest target bucketSize
    written.writes = closest.map (fun n => ⟨n.vouched, n.view.outcome⟩) ∧
      written.network = d.network.written (closest.map StorageNode.address) item ∧
      written.history.gets = [] := by
  intro written closest
  obtain ⟨hviews, hformed⟩ := (Search.covered_of_exhausted hspans hdiscover).network
  have hwritten : written = fanOut Testnet.transport lifetime c.config.writeTimeout
      ((d.network.closest target bucketSize).map StorageNode.vouched) item d.now d.network := by
    have htransport : c.transport = Testnet.transport := hspans.transport
    simp only [written, write, Lifetime.cancelledAt_none, htransport, writable_of_spans hspans hk hdiscover]
  obtain ⟨hwrites, hnetwork⟩ := fanOut_vouched c.config.writeTimeout d.now hforever hformed
    (fun n => mem_of_mem_closest) (nodup_addresses_closest hformed) haccepts
  rw [← hwritten] at hwrites hnetwork
  refine ⟨?_, ?_, ?_⟩
  · exact hwrites.trans (map_closest_congr hviews target bucketSize fun v =>
      (⟨⟨v.id, v.address, some (v.secrets.generate clientAddress)⟩, v.outcome⟩ : Write))
  · rw [hnetwork]
    exact congrArg (d.network.written · item)
      (map_closest_congr hviews target bucketSize StorageNode.View.address)
  · rw [hwritten, gets_fanOut]

/-- What a put comes to that has covered its part of a network, if the nodes closest to the target have nothing
    to object to in the item. -/
theorem put_of_spans (hspans : (c.search lifetime target none salt).Spans w t) (hk : w.k = bucketSize)
    (hforever : lifetime.endsAt? = none) (build : Seq → Item)
    (hdiscover : (c.search lifetime target none salt).discover highestSeq 0 now t = (.exhausted seen, d))
    (haccepts : ∀ n ∈ d.network.closest target bucketSize, n.Accepts (build seen)) :
    let put := c.put lifetime target salt build now t
    let closest := t.closest target bucketSize
    let tried := (t.surveyed target).length
    (∃ finished, put.returned = some (finished, .ok
      ⟨target, ⟨tried, tried⟩, closest.map fun n => ⟨n.vouched, n.view.outcome⟩⟩)) ∧
      put.network = d.network.written (closest.map StorageNode.address) (build seen) ∧
      put.history.gets = d.history.gets := by
  intro put closest tried
  let written := c.write lifetime { item := build seen, network := d.network } d
  obtain ⟨hwrites, hnetwork, hgets⟩ := write_of_spans hspans hk hforever hdiscover haccepts
  have hstats : c.engine.stats d.engine = ⟨tried, tried⟩ := by
    have hengine : c.engine = .iterative w := hspans.engine
    rw [hengine]
    exact Search.stats_of_exhausted hspans hdiscover
  refine ⟨⟨written.finished, ?_⟩, (network_of_exhausted hdiscover).trans hnetwork, ?_⟩
  · rw [← hstats, ← hwrites]
    exact returned_of_exhausted hdiscover
  · have hhistory : put.history = d.history ++ .built d.now seen (build seen) :: written.history :=
      history_of_exhausted hdiscover
    rw [hhistory, History.gets_append]
    change d.history.gets ++ written.history.gets = _
    rw [hgets, List.append_nil]

/-- A put of an immutable value that nothing cuts short reaches the nodes closest to its target, whatever the
    order in which its queries are processed, if all nodes reply to gets. Each of these nodes is written to, in
    the order of distance, and the outcome is that of its behavior. The nodes that the put asks on its way are
    those that every lookup begins with and the closest ones, each once, and all of them respond. -/
theorem put_reaches_closest (htransport : c.transport = Testnet.transport) (hengine : c.engine = .iterative w)
    (halpha : bootstrapSize ≤ w.alpha) (hk : w.k = bucketSize) (hforever : lifetime.endsAt? = none)
    (hformed : t.WellFormed) (hreplies : ∀ n ∈ t.nodes, n.behavior.repliesToGets = true) {value : Bytes}
    (hvalue : value.length ≤ StorageNode.maxValueSize) :
    let closest := t.closest (immutableTarget value) bucketSize
    let put := c.putImmutable lifetime value now t
    let asked := put.history.gets.map fun sent => sent.2.1
    ∃ finished receipt, put.returned = some (finished, .ok receipt) ∧
      receipt.writes = closest.map (fun n => ⟨n.vouched, n.view.outcome⟩) ∧
      receipt.writes.length = min t.nodes.length bucketSize ∧
      asked.Nodup ∧
      (∀ address, address ∈ asked ↔ ∃ n ∈ t.nodes.take bootstrapSize ++ closest, n.address = address) ∧
      receipt.stats = ⟨asked.length, asked.length⟩ := by
  intro closest put asked
  obtain ⟨seen, d, hdiscover⟩ :=
    exhausted_of_forever hengine hforever (immutableTarget value) none now t
  have hspans : (c.search lifetime (immutableTarget value) none none).Spans w t :=
    { transport := htransport, engine := hengine, alpha := Nat.lt_of_lt_of_le (by decide) halpha
      k := Nat.le_of_eq hk.symm, formed := hformed, wide := halpha, replies := hreplies }
  obtain ⟨⟨finished, hreturned⟩, -, hgets⟩ :=
    put_of_spans hspans hk hforever (fun _ => .immutable value) hdiscover fun _ _ => hvalue
  have hperm : asked.Perm ((t.surveyed (immutableTarget value)).map StorageNode.address) := by
    have haddresses := (Search.covered_of_exhausted hspans hdiscover).addresses
    rwa [← hgets] at haddresses
  refine ⟨finished, _, hreturned, rfl, ?_, ?_, fun address => ?_, ?_⟩
  · rw [List.length_map, length_closest]
  · refine hperm.nodup_iff.2 (hformed.addresses_nodup.sublist (List.filter_sublist.map _))
  · rw [hperm.mem_iff, List.mem_map]
    exact exists_congr fun n => and_congr_left' ((mem_surveyed hformed).trans List.mem_append.symm)
  · rw [hperm.length_eq, List.length_map]

/-- Three nodes, of which one refuses writes and one never answers them. -/
theorem put_reaches_closest_of_three :
    let value := Bytes.ofAscii "value"
    let ids : List NodeId := [default, immutableTarget [1], immutableTarget [2]]
    let t := ((Testnet.create 3 ids (.seeded 0 (List.replicate 6 default))).setBehavior
      [addressOf 0] .rejectWrites).setBehavior [addressOf 1] .hangWrites
    let c : Client Testnet Iterative.Lookup := { transport := Testnet.transport, engine := .iterative {} }
    ∃ finished receipt, (c.putImmutable {} value 0 t).returned = some (finished, .ok receipt) ∧
      receipt.writes.map (fun write => (write.node.id, write.outcome)) =
        [(immutableTarget [1], .failed .timeout), (immutableTarget [2], .stored),
          (default, .failed (.refused ⟨201, "Generic Error"⟩))] ∧
      receipt.stats = ⟨3, 3⟩ := by
  intro value ids t c
  have harises : t.Arises :=
    .setBehavior _ _ (.setBehavior _ _ (.create (by decide) (by decide +kernel)))
  have hclosest : (t.closest (immutableTarget value) bucketSize).map (fun n => (n.id, n.view.outcome)) =
      [(immutableTarget [1], .failed .timeout), (immutableTarget [2], .stored),
        (default, .failed (.refused ⟨201, "Generic Error"⟩))] := by
    decide +kernel
  have hasked : (c.putImmutable {} value 0 t).history.gets.length = 3 := by decide +kernel
  have hsize : value.length ≤ StorageNode.maxValueSize := by decide
  obtain ⟨finished, receipt, hreturned, hwrites, -, -, -, hstats⟩ :
      ∃ finished receipt, (c.putImmutable {} value 0 t).returned = some (finished, .ok receipt) ∧ _ :=
    put_reaches_closest (w := {}) rfl rfl (by decide) rfl rfl harises.wellFormed (by decide +kernel) hsize
  refine ⟨finished, receipt, hreturned, ?_, ?_⟩
  · rw [hwrites, List.map_map]
    exact hclosest
  · rw [hstats, List.length_map, hasked]

end Client

end DhtStore
