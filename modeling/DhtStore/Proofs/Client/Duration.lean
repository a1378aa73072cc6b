import DhtStore.Proofs.Client.Put
import DhtStore.Proofs.Discovery.Duration

namespace DhtStore

open Reader Iterative

variable {σ : Type}

namespace Client

variable {c : Client σ Lookup} {w : Width}

theorem gets_putWith (c : Client σ Lookup) (lifetime : Lifetime) (target : NodeId) (salt : Option Bytes)
    (builder : Builder σ) (now : Instant) (network : σ) :
    (c.putWith lifetime target salt builder now network).history.gets =
      ((c.search lifetime target none salt).discover highestSeq 0 now network).2.history.gets := by
  cases hdiscover : (c.search lifetime target none salt).discover highestSeq 0 now network with
  | mk ending d =>
    cases ending with
    | exhausted seen =>
      simp only [putWith, hdiscover, History.gets_append]
      exact (congrArg (d.history.gets ++ ·) gets_fanOut).trans (List.append_nil _)
    | _ => simp only [putWith, hdiscover]

/-- A get whose discovery ends returns at once. -/
theorem returned_get_of_discover {lifetime : Lifetime} {target : NodeId} {seq : Option Seq}
    {salt : Option Bytes} {now : Instant} {network : σ} {ending : Ending (Option MutableItem)}
    {d : Discovery σ Lookup (Option MutableItem)}
    (hdiscover : (c.search lifetime target seq salt).discover best none now network = (ending, d))
    (hends : ending ≠ .endless) :
    ∃ result, (c.get lifetime target seq salt now network).returned = some (d.now, result) := by
  simp only [get, hdiscover]
  cases ending with
  | resolved item => exact ⟨_, rfl⟩
  | exhausted kept => cases kept <;> exact ⟨_, rfl⟩
  | interrupted reason => exact ⟨_, rfl⟩
  | endless => exact absurd rfl hends

/-- A put whose discovery ends returns within the write timeout. -/
theorem returned_put_of_discover {lifetime : Lifetime} {target : NodeId} {salt : Option Bytes}
    (builder : Builder σ) {now : Instant} {network : σ} {ending : Ending Seq} {d : Discovery σ Lookup Seq}
    (hdiscover : (c.search lifetime target none salt).discover highestSeq 0 now network = (ending, d))
    (hends : ending ≠ .endless) :
    ∃ time result, (c.putWith lifetime target salt builder now network).returned = some (time, result) ∧
      time ≤ d.now + c.config.writeTimeout := by
  simp only [putWith, hdiscover]
  cases ending with
  | resolved item => exact absurd hdiscover Search.not_resolved_of_highestSeq
  | exhausted seen => exact ⟨_, _, rfl, finished_le⟩
  | interrupted reason => exact ⟨_, _, rfl, Nat.le_add_right ..⟩
  | endless => exact absurd rfl hends

/-- Every call returns. Its discovery asks no id twice, and no more ids than are heard of, each of its queries
    is over by its timeout, and so is the discovery after one timeout for each of these ids; if nothing else
    ends it, then the engine does. -/
theorem returns_in_time (hengine : c.engine = .iterative w) (lifetime : Lifetime) (target : NodeId)
    (seq : Option Seq) (salt : Option Bytes) (builder : Builder σ) (now : Instant) (network : σ) :
    (∃ ending d, (c.search lifetime target seq salt).discover best none now network = (ending, d) ∧
      let ids := (c.search lifetime target seq salt).idsHeard network d.history
      let get := c.get lifetime target seq salt now network
      (c.search lifetime target seq salt).Bounded now network d ∧
      (lifetime.endsAt? = none →
        (∃ item, ending = .resolved item) ∨ ∃ kept, ending = .exhausted kept ∧ d.atEnd = true) ∧
      get.history = d.history ∧
      ∃ time result, get.returned = some (time, result) ∧
        time ≤ now + ids.card * c.config.requestTimeout) ∧
    (∃ ending d, (c.search lifetime target none salt).discover highestSeq 0 now network = (ending, d) ∧
      let ids := (c.search lifetime target none salt).idsHeard network d.history
      let put := c.putWith lifetime target salt builder now network
      (c.search lifetime target none salt).Bounded now network d ∧
      (lifetime.endsAt? = none → ∃ seen, ending = .exhausted seen ∧ d.atEnd = true) ∧
      put.history.gets = d.history.gets ∧
      ∃ time result, put.returned = some (time, result) ∧
        time ≤ now + ids.card * c.config.requestTimeout + c.config.writeTimeout) := by
  have hlawful : c.engine.Lawful := hengine ▸ .iterative w
  have hnotSilent : c.engine.atEnd ≠ .hang := by
    rw [hengine]
    nofun
  constructor
  · cases hdiscover : (c.search lifetime target seq salt).discover best none now network with
    | mk ending d =>
      have hbounded := Search.bounded_of_discover hengine hdiscover
      obtain ⟨result, hreturned⟩ := returned_get_of_discover hdiscover (Search.not_endless hengine hdiscover)
      exact ⟨ending, d, rfl, hbounded,
        fun hforever => Search.ends_of_forever hlawful hnotSilent hforever hdiscover,
        history_get hdiscover, d.now, result, hreturned, hbounded.now_le⟩
  · cases hdiscover : (c.search lifetime target none salt).discover highestSeq 0 now network with
    | mk ending d =>
      have hbounded := Search.bounded_of_discover hengine hdiscover
      obtain ⟨time, result, hreturned, htime⟩ :=
        returned_put_of_discover builder hdiscover (Search.not_endless hengine hdiscover)
      refine ⟨ending, d, rfl, hbounded, ?_, ?_, time, result, hreturned, ?_⟩
      · intro hforever
        obtain ⟨item, rfl⟩ | hexhausted := Search.ends_of_forever hlawful hnotSilent hforever hdiscover
        · exact absurd hdiscover Search.not_resolved_of_highestSeq
        · exact hexhausted
      · rw [gets_putWith, hdiscover]
      · exact Nat.le_trans htime (Nat.add_le_add_right hbounded.now_le _)

/-- Of two nodes one names the other, which does not answer: a put waits for it as long as it may. -/
theorem returns_in_time_of_silent :
    let entry : Node := ⟨default, Address.ofV4 10 0 0 1 6881, none⟩
    let silent : Node := ⟨⟨Octets.ofPadded [1]⟩, Address.ofV4 10 0 0 2 6881, none⟩
    let network : ScriptedNetwork :=
      { nodes := [⟨entry.address, [.after 3 (.ok { nodes := [silent] })], []⟩, ⟨silent.address, [.never], []⟩]
        start := [entry] }
    let c : Client Unit Lookup :=
      { transport := network.transport 0, engine := .iterative {}, config := ⟨5, 7⟩ }
    ∃ time result, (c.put {} default none (fun _ => .immutable []) 0 ()).returned = some (time, result) ∧
      time ≤ 17 := by
  intro entry silent network c
  let s : Search Unit Lookup := c.search {} default none none
  have hcard : (s.idsHeard () (s.discover highestSeq 0 0 ()).2.history).card = 2 := by decide +kernel
  obtain ⟨-, ending, d, hdiscover, -, -, -, time, result, hreturned, htime⟩ :=
    returns_in_time (c := c) (w := {}) rfl {} default none none (.ofFunction fun _ => .immutable []) 0 ()
  rw [show s.discover highestSeq 0 0 () = (ending, d) from hdiscover] at hcard
  rw [show (c.search {} default none none).idsHeard () d.history = s.idsHeard () d.history from rfl,
    hcard] at htime
  exact ⟨time, result, hreturned, htime⟩

end Client

end DhtStore
