import DhtStore.Proofs.Client.Interruption
import DhtStore.Proofs.Testnet.Lookup

namespace DhtStore

open Reader Testnet

variable {w : Iterative.Width} {t : Testnet} {target : NodeId} {salt : Option Bytes} {item : Item}

/-- An item is the only one at a target, and each node that is among the closest holds it. What a node that
    tampers makes of it must not be taken for another item, nor its value for an immutable one. -/
structure Testnet.Keeps (t : Testnet) (target : NodeId) (salt : Option Bytes) (item : Item) : Prop where
  valid : item.IsValidFor target salt
  held : ∀ n ∈ t.closest target bucketSize, n.Holds target item
  only : ∀ n ∈ t.nodes, ∀ other, n.Holds target other → other = item
  untampered : ∀ n ∈ t.nodes, n.behavior = .corrupt → ∀ other,
    ((n.handleGet clientAddress ⟨target, none⟩ (t.closestNodes target)).1.classify target salt).item? =
      some other → other = item
  unhashed : ∀ held, item = .mutable held → immutableTarget held.value ≠ target

namespace Search

variable {ρ : Type} {s : Search Testnet Iterative.Lookup} {read : Reader ρ} {init : ρ} {start : Instant}
  {last : Discovery Testnet Iterative.Lookup ρ} {ending : Ending ρ}

/-- No other item than the one that is kept is ever offered. -/
theorem eq_of_mem_offers (hcrosses : s.Crosses w t) (hseq : s.seq = none)
    (hkeeps : t.Keeps s.target s.salt item)
    (hdiscover : s.discover read init start t = (ending, last)) {arrival : Instant} {node : Node}
    {other : Item} (hoffer : (arrival, node, other) ∈ s.offers t last.history) : other = item := by
  obtain ⟨q, hq, hbrings⟩ := List.mem_filterMap.1 hoffer
  obtain ⟨delay, reply, hafter, -, -, -, hitem⟩ := Query.offer?_eq_some_iff.1 hbrings
  have hrequest : s.request = ⟨s.target, none⟩ := by rw [request, hseq]
  have hdelivery := (delivery_of_mem_queries hcrosses hdiscover q hq).2
  rw [hafter, hrequest] at hdelivery
  obtain ⟨n, hn, -, -, -, rfl⟩ := (answer_eq_ok_iff hcrosses.formed).1 hdelivery.symm
  by_cases hcorrupt : n.behavior = .corrupt
  · refine hkeeps.untampered n hn hcorrupt other ?_
    rw [(StorageNode.handleGet_spec (hcrosses.formed.fits n hn) ..).1]
    exact hitem
  · have hholds := (StorageNode.item?_answer_iff hcorrupt hkeeps.valid hkeeps.unhashed (hkeeps.only n hn)).1
      hitem
    exact hkeeps.only n hn other hholds

/-- A node that is asked and replies truthfully brings the item in time. -/
theorem offers_ne_nil (hcrosses : s.Crosses w t) (hseq : s.seq = none) (htimeout : 0 < s.timeout)
    (hkeeps : t.Keeps s.target s.salt item)
    (hdiscover : s.discover read init start t = (ending, last)) {n : StorageNode}
    (hn : n ∈ t.closest s.target bucketSize) (hreplies : n.behavior.repliesToGets = true)
    (htruthful : n.behavior ≠ .corrupt) {q : Query} (hq : q ∈ s.transport.queries t last.history)
    (hasked : q.node.address = n.address) : s.offers t last.history ≠ [] := by
  have hmem := mem_of_mem_closest hn
  have hrequest : s.request = ⟨s.target, none⟩ := by rw [request, hseq]
  have hdelivery := (delivery_of_mem_queries hcrosses hdiscover q hq).2
  rw [hasked, hrequest, (answer_eq_ok_iff hcrosses.formed).2 ⟨n, hmem, rfl, hreplies, rfl, rfl⟩] at hdelivery
  have hitem : ((n.view.answer clientAddress ⟨s.target, none⟩ (t.closestNodes s.target)).classify s.target
      s.salt).item? = some item :=
    (StorageNode.item?_answer_iff htruthful hkeeps.valid hkeeps.unhashed (hkeeps.only n hmem)).2
      (hkeeps.held n hn)
  have hoffer : q.offer? s.timeout s.target s.salt = some (q.start, q.node, item) :=
    Query.offer?_eq_some_iff.2 ⟨0, _, hdelivery, htimeout, rfl, rfl, hitem⟩
  exact List.ne_nil_of_mem (List.mem_filterMap.2 ⟨q, hq, hoffer⟩)

end Search

namespace Client

variable {c : Client Testnet Iterative.Lookup} {lifetime : Lifetime} {now : Instant}

/-- A get that nothing cuts short finds the item that a network keeps, however many of its nodes are faulty
    and in whatever way: it is enough that one of the nodes to begin with replies to gets, and that one of
    those closest to the target does so truthfully. -/
theorem get_survives_faults (htransport : c.transport = Testnet.transport) (hengine : c.engine = .iterative w)
    (halpha : 0 < w.alpha) (hk : bucketSize ≤ w.k) (htimeout : 0 < c.config.requestTimeout)
    (hforever : lifetime.endsAt? = none) (hformed : t.WellFormed) (hkeeps : t.Keeps target salt item)
    (hentry : ∃ n ∈ t.nodes.take bootstrapSize, n.behavior.repliesToGets = true)
    (htruthful : ∃ n ∈ t.closest target bucketSize,
      n.behavior.repliesToGets = true ∧ n.behavior ≠ .corrupt) :
    ∃ time found, (c.get lifetime target none salt now t).returned = some (time, .ok found) ∧
      found.item = item := by
  have hcrosses : (c.search lifetime target none salt).Crosses w t :=
    ⟨htransport, hengine, halpha, hk, hformed⟩
  have hlawful : c.engine.Lawful := hengine ▸ .iterative w
  cases hdiscover : (c.search lifetime target none salt).discover best none now t with
  | mk ending d =>
    have hfound {time : Instant} {found : Found}
        (hreturned : (c.get lifetime target none salt now t).returned = some (time, .ok found)) :
        found.item = item := by
      obtain ⟨arrival, node, -, hoffer⟩ := exists_offer_of_get hreturned
      rw [history_get hdiscover] at hoffer
      exact Search.eq_of_mem_offers hcrosses rfl hkeeps hdiscover hoffer
    have hreturned (found : Found) (hresult : (c.get lifetime target none salt now t).returned =
        some (d.now, .ok found)) :
        ∃ time found, (c.get lifetime target none salt now t).returned = some (time, .ok found) ∧
          found.item = item := ⟨d.now, found, hresult, hfound hresult⟩
    cases ending with
    | resolved held =>
      refine hreturned ⟨held, c.engine.stats d.engine⟩ ?_
      simp only [get, hdiscover]
      rfl
    | exhausted kept =>
      obtain ⟨n, hn, hreplies, hhonest⟩ := htruthful
      obtain ⟨q, hq, hasked⟩ := Search.asked_of_exhausted hcrosses hentry hdiscover n hn
      have hoffers :=
        Search.offers_ne_nil hcrosses rfl htimeout hkeeps hdiscover hn hreplies hhonest hq hasked
      cases kept with
      | none => exact absurd ((Search.best_of_exhausted hdiscover).1.1 rfl) hoffers
      | some held =>
        refine hreturned ⟨.mutable held, c.engine.stats d.engine⟩ ?_
        simp only [get, hdiscover]
        rfl
    | interrupted reason =>
      obtain ⟨-, limit, hends, -⟩ := Search.ends_of_interrupted hlawful hdiscover
      cases hforever.symm.trans hends
    | endless =>
      have hhang := (Search.silent_of_endless hlawful hdiscover).1
      change c.engine.atEnd = .hang at hhang
      rw [hengine] at hhang
      cases hhang

/-- Three nodes that hold an item: the first tampers with it, the second is offline. -/
theorem get_survives_faults_of_two :
    let value := Bytes.ofAscii "value"
    let ids : List NodeId := [default, immutableTarget [1], immutableTarget [2]]
    let t := (((Testnet.create 3 ids (.seeded 0 (List.replicate 6 default))).seed (.immutable value)).setBehavior
      [addressOf 0] .corrupt).setBehavior [addressOf 1] .offline
    let c : Client Testnet Iterative.Lookup := { transport := Testnet.transport, engine := .iterative {} }
    ∃ time found, (c.get {} (immutableTarget value) none none 0 t).returned = some (time, .ok found) ∧
      found.item = .immutable value := by
  intro value ids t c
  have harises : t.Arises :=
    .setBehavior _ _ (.setBehavior _ _ (.seed _ (.create (by decide) (by decide +kernel))))
  have hheld : ∀ n ∈ t.nodes, n.immutables.peek? (immutableTarget value) = some value ∧
      n.mutables.peek? (immutableTarget value) = none := by
    decide +kernel
  have htampered : ∀ n ∈ t.nodes, n.behavior = .corrupt →
      ((n.handleGet clientAddress ⟨immutableTarget value, none⟩
        (t.closestNodes (immutableTarget value))).1.classify (immutableTarget value) none).item? = none := by
    decide +kernel
  have hkeeps : t.Keeps (immutableTarget value) none (.immutable value) := by
    refine ⟨rfl, fun n hn => (hheld n (mem_of_mem_closest hn)).1, fun n hn other hother => ?_, ?_, nofun⟩
    · cases other with
      | immutable other =>
        cases (hheld n hn).1.symm.trans hother
        rfl
      | mutable other => cases (hheld n hn).2.symm.trans hother
    · intro n hn hcorrupt other hother
      rw [htampered n hn hcorrupt] at hother
      cases hother
  exact get_survives_faults rfl rfl (by decide) (by decide) (by decide) rfl harises.wellFormed hkeeps
    (by decide +kernel) (by decide +kernel)

end Client

end DhtStore
