import DhtStore.Proofs.Client.Get
import DhtStore.Proofs.Discovery.Timing
import DhtStore.Proofs.FanOut

namespace DhtStore

open Reader

variable {σ S : Type}

/-- To find the highest sequence number all items must be read: no item ends the search. -/
theorem Search.not_resolved_of_highestSeq {s : Search σ S} {start : Instant} {network : σ} {item : Item}
    {last : Discovery σ S Seq} : s.discover highestSeq 0 start network ≠ (.resolved item, last) := by
  intro hdiscover
  obtain ⟨state, _, _, held, hread, -⟩ := resolved_spec hdiscover
  cases held <;> cases hread

namespace Client

/-- The discovery of a put that nothing cuts short. -/
def discovery (c : Client σ S) (target : NodeId) (salt : Option Bytes) (now : Instant) (network : σ) :
    Ending Seq × Discovery σ S Seq :=
  (c.search {} target none salt).discover highestSeq 0 now network

/-- A put whose discovery ended in time. Its queries are over, so the item is built after the discovery,
    and only then it is written; every node of the write set has one outcome. -/
structure Written (c : Client σ S) (builder : Builder σ) (seen : Seq) (d : Discovery σ S Seq)
    (put : Outcome σ Receipt) : Prop where
  settled : (d.history.landings.map Flight.node).Perm d.history.asked
  built_once : put.history.filterMap Event.built? = [(seen, (builder seen d.now d.network).item)]
  history : ∃ writes, (∀ event ∈ writes, ∃ write, event.put? = some write) ∧
    put.history = d.history ++ .built d.now seen (builder seen d.now d.network).item :: writes
  returned : ∃ finished receipt, put.returned = some (finished, .ok receipt) ∧ d.now ≤ finished ∧
    receipt.writes.map Write.node = (c.engine.closest d.engine).writable

variable {c : Client σ S} {lifetime : Lifetime} {target : NodeId} {salt : Option Bytes}
  {builder : Builder σ} {now : Instant} {network : σ} {d : Discovery σ S Seq}

/-- A discovery that ends in time is the one that nothing cuts short. -/
theorem exhausted_iff (hlawful : c.engine.Lawful) {seen : Seq} :
    (c.search lifetime target none salt).discover highestSeq 0 now network = (.exhausted seen, d) ↔
      c.discovery target salt now network = (.exhausted seen, d) ∧ lifetime.isOver d.now = false := by
  have hnatural : (Ending.exhausted seen).isNatural = true := rfl
  constructor
  · intro hdiscover
    have hfree : ((c.search lifetime target none salt).within {}).discover highestSeq 0 now network =
        (.exhausted seen, d) := Search.discover_within hnatural Lifetime.isOver_empty hdiscover
    exact ⟨hfree, (Search.lasting_of_natural hlawful hdiscover hnatural).2⟩
  · rintro ⟨hdiscovery, hlasting⟩
    unfold discovery at hdiscovery
    exact Search.discover_within hnatural hlasting hdiscovery

/-- A discovery that is cut short would not have ended before. -/
theorem over_le_of_interrupted (hlawful : c.engine.Lawful) {reason : Interruption}
    (hdiscover : (c.search lifetime target none salt).discover highestSeq 0 now network =
      (.interrupted reason, d)) :
    ∃ limit, lifetime.endsAt? = some limit ∧ ∀ seen free,
      c.discovery target salt now network = (.exhausted seen, free) → limit ≤ free.now := by
  obtain ⟨-, limit, hends, -⟩ := Search.ends_of_interrupted hlawful hdiscover
  refine ⟨limit, hends, fun seen free hfree => Nat.le_of_not_lt fun hearly => ?_⟩
  have hlasting : lifetime.isOver free.now = false := (Lifetime.isOver_eq_false_iff_lt hends).2 hearly
  cases hdiscover.symm.trans ((exhausted_iff hlawful).2 ⟨hfree, hlasting⟩)

theorem returned_of_exhausted {seen : Seq}
    (hdiscover : (c.search lifetime target none salt).discover highestSeq 0 now network =
      (.exhausted seen, d)) :
    (c.putWith lifetime target salt builder now network).returned =
      let written := c.write lifetime (builder seen d.now d.network) d
      some (written.finished, .ok ⟨target, c.engine.stats d.engine, written.writes⟩) := by
  simp only [putWith, hdiscover]
  rfl

theorem network_of_exhausted {seen : Seq}
    (hdiscover : (c.search lifetime target none salt).discover highestSeq 0 now network =
      (.exhausted seen, d)) :
    (c.putWith lifetime target salt builder now network).network =
      (c.write lifetime (builder seen d.now d.network) d).network := by
  simp only [putWith, hdiscover]

theorem history_of_exhausted {seen : Seq}
    (hdiscover : (c.search lifetime target none salt).discover highestSeq 0 now network =
      (.exhausted seen, d)) :
    (c.putWith lifetime target salt builder now network).history =
      let build := builder seen d.now d.network
      d.history ++ .built d.now seen build.item :: (c.write lifetime build d).history := by
  simp only [putWith, hdiscover]

theorem returned_of_interrupted {reason : Interruption}
    (hdiscover : (c.search lifetime target none salt).discover highestSeq 0 now network =
      (.interrupted reason, d)) :
    (c.putWith lifetime target salt builder now network).returned =
      some (d.now, .error (.interrupted reason)) := by
  simp only [putWith, hdiscover]

theorem written_of_exhausted {seen : Seq}
    (hdiscover : (c.search lifetime target none salt).discover highestSeq 0 now network =
      (.exhausted seen, d)) :
    c.Written builder seen d (c.putWith lifetime target salt builder now network) := by
  obtain ⟨haccounts, -, hflying, -⟩ := Search.exhausted_spec hdiscover
  let build := builder seen d.now d.network
  let written := c.write lifetime build d
  have hhistory : (c.putWith lifetime target salt builder now network).history =
      d.history ++ .built d.now seen build.item :: written.history := history_of_exhausted hdiscover
  refine ⟨?_, ?_, ⟨written.history, ?_, hhistory⟩, ?_⟩
  · have hflights := haccounts.flights.map Flight.node
    rw [hflying, List.append_nil, List.map_map] at hflights
    refine hflights.trans (.of_eq ?_)
    rw [← History.map_node_queries c.transport network]
    exact List.map_congr_left fun q _ => q.node_flight _
  · have hbefore : d.history.filterMap Event.built? = [] := by
      refine List.filterMap_eq_nil_iff.2 fun event hevent => ?_
      have honly := Search.onlyReads_of_discover hdiscover event hevent
      cases event with
      | built time seen item => cases honly
      | _ => rfl
    have hafter : written.history.filterMap Event.built? = [] := by
      refine List.filterMap_eq_nil_iff.2 fun event hevent => ?_
      obtain ⟨_, -, _, -, rfl⟩ := exists_node_of_mem_history_fanOut hevent
      split <;> rfl
    rw [hhistory, List.filterMap_append, List.filterMap_cons, hbefore, hafter]
    rfl
  · intro event hevent
    obtain ⟨_, -, _, -, rfl⟩ := exists_node_of_mem_history_fanOut hevent
    split <;> exact ⟨_, rfl⟩
  · refine ⟨written.finished, ⟨target, c.engine.stats d.engine, written.writes⟩,
      returned_of_exhausted hdiscover, le_finished, map_node_writes_fanOut⟩

/-- Unless its discovery ends in time, a put neither builds nor sends anything. -/
theorem reading_of_not_exhausted
    (hnot : ∀ seen d, (c.search lifetime target none salt).discover highestSeq 0 now network ≠
      (.exhausted seen, d)) :
    let put := c.putWith lifetime target salt builder now network
    ∀ event ∈ put.history ++ put.late, event.isWriting = false := by
  cases hdiscover : (c.search lifetime target none salt).discover highestSeq 0 now network with
  | mk ending d =>
    have honly := Search.onlyReads_of_discover hdiscover
    have hnothing (event : Event) (hevent : event ∈ []) : event.isWriting = false := by cases hevent
    simp only [putWith, hdiscover]
    cases ending with
    | exhausted seen => exact absurd hdiscover (hnot seen d)
    | interrupted reason =>
      exact List.forall_mem_append.2 ⟨honly, fun event => Search.not_isWriting_of_mem_overrun⟩
    | _ => exact List.forall_mem_append.2 ⟨honly, hnothing⟩

/-- An item is built only when a discovery has ended in time, at that instant and from what this has found. -/
theorem discover_of_built {time : Instant} {seen : Seq} {item : Item}
    (hbuilt : .built time seen item ∈ (c.putWith lifetime target salt builder now network).history) :
    ∃ d, (c.search lifetime target none salt).discover highestSeq 0 now network = (.exhausted seen, d) ∧
      d.now = time ∧ item = (builder seen d.now d.network).item := by
  cases hdiscover : (c.search lifetime target none salt).discover highestSeq 0 now network with
  | mk ending d =>
    have hnot : .built time seen item ∉ d.history := by
      intro hmem
      cases Search.onlyReads_of_discover hdiscover _ hmem
    cases ending with
    | exhausted found =>
      have hwritten : c.Written builder found d (c.putWith lifetime target salt builder now network) :=
        written_of_exhausted hdiscover
      obtain ⟨writes, hwrites, hhistory⟩ := hwritten.history
      rw [hhistory, List.mem_append, or_iff_right hnot, List.mem_cons] at hbuilt
      obtain hsame | hlater := hbuilt
      · cases hsame
        exact ⟨d, rfl, rfl, rfl⟩
      · obtain ⟨write, hwrite⟩ := hwrites _ hlater
        cases hwrite
    | _ =>
      simp only [putWith, hdiscover] at hbuilt
      exact absurd hbuilt hnot

/-- All that a put sends is the item that was built. -/
theorem item_of_mem_puts {time : Instant} {seen : Seq} {item : Item}
    (hbuilt : .built time seen item ∈ (c.putWith lifetime target salt builder now network).history) :
    ∀ sent ∈ (c.putWith lifetime target salt builder now network).history.puts, sent.2.2.item = item := by
  obtain ⟨d, hdiscover, -, rfl⟩ := discover_of_built hbuilt
  intro sent hsent
  rw [history_of_exhausted hdiscover] at hsent
  obtain ⟨event, hevent, hput⟩ := List.mem_filterMap.1 hsent
  obtain hread | hwriting := List.mem_append.1 hevent
  · cases event with
    | wrote time address request => cases Search.onlyReads_of_discover hdiscover _ hread
    | unwritten time address request => cases Search.onlyReads_of_discover hdiscover _ hread
    | _ => cases hput
  · obtain rfl | hwrote := List.mem_cons.1 hwriting
    · cases hput
    · obtain ⟨_, -, _, -, rfl⟩ := exists_node_of_mem_history_fanOut hwrote
      split at hput <;> cases hput <;> rfl

/-- A put never finds nothing. It fails exactly if its lifetime is over by the time at which its discovery
    ends, and then nothing was built nor sent. It waits for ever only if the discovery does. In all other
    cases it succeeds, whatever the outcomes of its writes. -/
theorem put_all_or_nothing (hlawful : c.engine.Lawful) (lifetime : Lifetime) (target : NodeId)
    (salt : Option Bytes) (builder : Builder σ) (now : Instant) (network : σ) :
    let discovery := c.discovery target salt now network
    let put := c.putWith lifetime target salt builder now network
    (∀ time, put.returned ≠ some (time, .error .notFound)) ∧
    ((∃ time reason, put.returned = some (time, .error (.interrupted reason))) ↔
      ∃ limit, lifetime.endsAt? = some limit ∧
        ∀ seen d, discovery = (.exhausted seen, d) → limit ≤ d.now) ∧
    (∀ time reason, put.returned = some (time, .error (.interrupted reason)) →
      lifetime.interruption? time = some reason ∧
        ∀ event ∈ put.history ++ put.late, event.isWriting = false) ∧
    (put.returned = none ↔ lifetime.endsAt? = none ∧ ∀ seen d, discovery ≠ (.exhausted seen, d)) ∧
    ∀ seen d, discovery = (.exhausted seen, d) → lifetime.isOver d.now = false →
      c.Written builder seen d put := by
  intro discovery put
  cases hdiscover : (c.search lifetime target none salt).discover highestSeq 0 now network with
  | mk ending last =>
    cases ending with
    | resolved item => exact absurd hdiscover Search.not_resolved_of_highestSeq
    | exhausted seen =>
      obtain ⟨hfree, hlasting⟩ := (exhausted_iff hlawful).1 hdiscover
      have hwritten : c.Written builder seen last put := written_of_exhausted hdiscover
      obtain ⟨finished, receipt, hreturned, -⟩ := hwritten.returned
      have hlate : ¬ ∃ limit, lifetime.endsAt? = some limit ∧
          ∀ seen d, discovery = (.exhausted seen, d) → limit ≤ d.now := by
        rintro ⟨limit, hends, hbefore⟩
        exact Nat.not_lt.2 (hbefore seen last hfree) ((Lifetime.isOver_eq_false_iff_lt hends).1 hlasting)
      refine ⟨?_, ?_, ?_, ?_, ?_⟩
      · simp [hreturned]
      · simpa [hreturned] using hlate
      · simp [hreturned]
      · simp only [hreturned, reduceCtorEq, false_iff]
        exact fun hnever => hnever.2 seen last hfree
      · rintro other d hother -
        cases hfree.symm.trans hother
        exact hwritten
    | interrupted reason =>
      obtain ⟨limit, hends, hbefore⟩ := over_le_of_interrupted hlawful hdiscover
      have hreturned : put.returned = some (last.now, .error (.interrupted reason)) :=
        returned_of_interrupted hdiscover
      refine ⟨?_, ?_, ?_, ?_, ?_⟩
      · simp [hreturned]
      · simpa [hreturned] using ⟨limit, hends, hbefore⟩
      · intro time other hother
        cases hreturned.symm.trans hother
        refine ⟨(Search.ends_of_interrupted hlawful hdiscover).1, reading_of_not_exhausted ?_⟩
        rw [hdiscover]
        nofun
      · simp [hreturned, hends]
      · intro seen d hfree hlasting
        exact absurd (hbefore seen d hfree)
          (Nat.not_le.2 ((Lifetime.isOver_eq_false_iff_lt hends).1 hlasting))
    | endless =>
      obtain ⟨hhang, hends⟩ := Search.silent_of_endless hlawful hdiscover
      change lifetime.endsAt? = none at hends
      have hnever (seen : Seq) (d : Discovery σ S Seq) : discovery ≠ (.exhausted seen, d) :=
        fun hfree => Search.not_silent_of_exhausted hlawful hfree hhang
      have hreturned : put.returned = none := by simp only [put, putWith, hdiscover]
      refine ⟨?_, ?_, ?_, ?_, ?_⟩
      · simp [hreturned]
      · simp [hreturned, hends]
      · simp [hreturned]
      · simpa [hreturned, hends] using hnever
      · exact fun seen d hfree => absurd hfree (hnever seen d)

theorem put_all_or_nothing_lone :
    let c := Client.ofLone (.after 3 (.ok { token := some ⟨[7]⟩ }))
    let builder : Builder Unit := .ofFunction fun _ => .immutable []
    (∃ time reason, (c.putWith { deadline := some 2 } default none builder 0 ()).returned =
      some (time, .error (.interrupted reason))) ∧
      ∃ d, c.Written builder 0 d (c.putWith {} default none builder 0 ()) := by
  intro c builder
  have hlawful : c.engine.Lawful := .iterative {}
  have hnow : (c.discovery default none 0 ()).2.now = 3 := by decide +kernel
  have hseen : (c.discovery default none 0 ()).1 = .exhausted 0 := by decide +kernel
  constructor
  · obtain ⟨-, hfails, -⟩ := put_all_or_nothing hlawful { deadline := some 2 } default none builder 0 ()
    refine hfails.2 ⟨2, rfl, fun seen d hdiscovery => ?_⟩
    rw [hdiscovery] at hnow
    exact Nat.le_trans (Nat.le_succ 2) (Nat.le_of_eq hnow.symm)
  · obtain ⟨-, -, -, -, hwritten⟩ := put_all_or_nothing hlawful {} default none builder 0 ()
    cases hdiscovery : c.discovery default none 0 () with
    | mk ending d =>
      rw [hdiscovery] at hseen
      obtain rfl : ending = .exhausted 0 := hseen
      exact ⟨d, hwritten 0 d hdiscovery Lifetime.isOver_empty⟩

end Client

end DhtStore
