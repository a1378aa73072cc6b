import DhtStore.Proofs.Client.Put
import DhtStore.Proofs.Client.Reconciliation
import DhtStore.Proofs.StorageNode.Objections

namespace DhtStore

open Reader

namespace Seq

/-- What follows a number exceeds all up to it, or there is no number left to follow. -/
theorem lt_plus_one_or {seq highest : Seq} (hle : seq ≤ highest) :
    seq < highest.plus 1 ∨ seq = Int64.maxValue ∧ highest.plus 1 = Int64.maxValue := by
  obtain hbelow | hlast := Int64.lt_or_eq_of_le (Int64.le_maxValue highest)
  · left
    rw [Int64.lt_iff_toInt_lt, toInt_plus_one hbelow]
    exact Int.lt_add_one_of_le (Int64.le_iff_toInt_le.1 hle)
  · have hplus : highest.plus 1 = Int64.maxValue := by
      rw [hlast]
      decide
    rw [hplus]
    exact (Int64.lt_or_eq_of_le (Int64.le_maxValue seq)).imp_right fun heq => ⟨heq, rfl⟩

end Seq

variable {σ S : Type}

namespace Client

variable {c : Client σ S} {lifetime : Lifetime} {target : NodeId} {salt : Option Bytes}
  {builder : Builder σ} {now time : Instant} {network : σ} {d : Discovery σ S Seq} {seen : Seq} {item : Item}

/-- A put reads nothing after its discovery. -/
theorem reads_of_exhausted
    (hdiscover : (c.search lifetime target none salt).discover highestSeq 0 now network = (.exhausted seen, d)) :
    (c.putWith lifetime target salt builder now network).history.reads = d.history.reads := by
  have hnothing : (c.write lifetime (builder seen d.now d.network) d).history.reads = [] := by
    refine List.filterMap_eq_nil_iff.2 fun event hevent => ?_
    obtain ⟨_, -, _, -, rfl⟩ := exists_node_of_mem_history_fanOut hevent
    split <;> rfl
  rw [history_of_exhausted hdiscover]
  dsimp only
  unfold History.reads at hnothing ⊢
  rw [List.filterMap_append, List.filterMap_cons, hnothing]
  exact List.append_nil _

/-- The number that a builder is given is what the items read before come to. -/
theorem readAll_of_built
    (hbuilt : .built time seen item ∈ (c.putWith lifetime target salt builder now network).history) :
    readAll highestSeq 0 ((c.putWith lifetime target salt builder now network).history.reads.map
      fun entry => entry.2.2) = .reading seen := by
  obtain ⟨d, hdiscover, -⟩ := discover_of_built hbuilt
  rw [reads_of_exhausted hdiscover]
  exact (Search.readAll_of_discover hdiscover rfl).1

/-- The items that a put reads are valid at its target. -/
theorem isValidFor_of_mem_reads
    (hbuilt : .built time seen item ∈ (c.putWith lifetime target salt builder now network).history)
    {candidate : Item} (hread : candidate ∈
      (c.putWith lifetime target salt builder now network).history.reads.map fun entry => entry.2.2) :
    candidate.IsValidFor target salt := by
  obtain ⟨d, hdiscover, -⟩ := discover_of_built hbuilt
  obtain ⟨haccounts, -⟩ := Search.exhausted_spec hdiscover
  rw [reads_of_exhausted hdiscover] at hread
  obtain ⟨entry, hentry, rfl⟩ := List.mem_map.1 hread
  obtain ⟨hoffer, -⟩ := haccounts.mem_offers (List.mem_append_left _ hentry)
  obtain ⟨q, -, hbrings⟩ := List.mem_filterMap.1 hoffer
  obtain ⟨_, reply, -, -, -, -, hitem⟩ := Query.offer?_eq_some_iff.1 hbrings
  exact (GetReply.valid_of_item?_classify hitem).1

/-- A put that reads no mutable item builds from 0. From mutable ones it takes the highest number, which is that
    of the item that a get would settle on if there were no immutable ones, exactly if this is not negative. -/
theorem seen_eq_current_iff (c : Client σ S) (lifetime : Lifetime) (target : NodeId) (salt : Option Bytes)
    (builder : Builder σ) (now : Instant) (network : σ) {time : Instant} {seen : Seq} {item : Item}
    (hbuilt : .built time seen item ∈ (c.putWith lifetime target salt builder now network).history) :
    let items := (c.putWith lifetime target salt builder now network).history.reads.map fun entry => entry.2.2
    ((∀ candidate ∈ items, candidate.isMutable = false) ↔ current? items = none) ∧
    (current? items = none → seen = 0) ∧
    ∀ current, current? items = some current →
      (∃ candidate, .mutable candidate ∈ items ∧ candidate.seq = current) ∧
      (∀ candidate, .mutable candidate ∈ items → candidate.seq ≤ current) ∧
      seen = max 0 current ∧ (seen = current ↔ 0 ≤ current) := by
  intro items
  have hseen : seen = (current? items).elim 0 (max 0) := by
    have hread := readAll_of_built hbuilt
    rw [readAll_highestSeq_eq, Verdict.reading.injEq] at hread
    exact hread.symm
  refine ⟨current?_eq_none_iff.symm, fun hnone => by rw [hseen, hnone]; rfl, fun current hcurrent => ?_⟩
  obtain ⟨-, hnone⟩ | ⟨candidate, hcandidate, hhighest, hsome⟩ := current?_cases items
  · cases hnone.symm.trans hcurrent
  cases hsome.symm.trans hcurrent
  rw [hcurrent] at hseen
  refine ⟨⟨candidate, hcandidate, rfl⟩, hhighest, hseen, ?_⟩
  rw [hseen, Option.elim_some]
  obtain ⟨hle, hmax⟩ | ⟨hle, hmax⟩ := Seq.max_cases 0 candidate.seq
  · rw [hmax]
    exact ⟨fun heq => Int64.le_of_eq heq, fun hge => Int64.le_antisymm hge hle⟩
  · rw [hmax]
    exact ⟨fun _ => hle, fun _ => rfl⟩

/-- A put that finds an item under 7 builds from 7. -/
theorem seen_eq_current_lone :
    let c := Client.ofLone (.after 3 (.ok (.ofMutable .sample)))
    let put := c.putWith {} MutableItem.sample.target none (.ofFunction fun _ => .immutable []) 0 ()
    .built 3 7 (.immutable []) ∈ put.history ∧
      ∃ candidate, .mutable candidate ∈ put.history.reads.map (fun entry => entry.2.2) ∧ candidate.seq = 7 := by
  intro c put
  obtain ⟨hbuilt, hcurrent⟩ : .built 3 7 (.immutable []) ∈ put.history ∧
      current? (put.history.reads.map fun entry => entry.2.2) = some 7 := by
    decide +kernel
  obtain ⟨-, -, hspec⟩ := seen_eq_current_iff c {} MutableItem.sample.target none
    (.ofFunction fun _ => .immutable []) 0 () hbuilt
  exact ⟨hbuilt, (hspec 7 hcurrent).1⟩

/-- A put that finds an item under -5 only builds from 0. -/
theorem seen_above_current :
    let held := MutableItem.sign default (Bytes.ofAscii "value") (-5) none
    let c := Client.ofLone (.after 3 (.ok (.ofMutable held)))
    let put := c.putWith {} held.target none (.ofFunction fun _ => .immutable []) 0 ()
    .built 3 0 (.immutable []) ∈ put.history ∧
      current? (put.history.reads.map fun entry => entry.2.2) = some (-5) := by
  decide +kernel

/-- A value that is put is written under a number that exceeds those of all items read, unless one of them has the
    last number, which then serves again. So of the nodes that hold an item read only those can refuse the new one
    as outdated, and those do not acknowledge it, that hold another value under the last number. -/
theorem put_supersedes (c : Client σ S) (lifetime : Lifetime) (seed : Seed) (value : Bytes)
    (salt : Option Bytes) (now : Instant) (network : σ) {time : Instant} {seen : Seq} {item : Item}
    (hbuilt : .built time seen item ∈ (c.putMutable lifetime seed value salt now network).history) :
    let put := c.putMutable lifetime seed value salt now network
    ∃ written, item = .mutable written ∧ written.value = value ∧
      (∀ sent ∈ put.history.puts, sent.2.2.item = .mutable written) ∧
      ∀ candidate, .mutable candidate ∈ put.history.reads.map (fun entry => entry.2.2) →
        candidate.target = written.target ∧
        (candidate.seq < written.seq ∨ candidate.seq = Int64.maxValue ∧ written.seq = Int64.maxValue) ∧
        ∀ n : StorageNode, n.mutables.peek? candidate.target = some candidate → ∀ requester token,
          let answer := (n.handlePut requester ⟨token, .mutable written⟩).1
          (answer = .error .outdated → candidate.seq = Int64.maxValue ∧ candidate.value ≠ value) ∧
          (candidate.seq = Int64.maxValue ∧ candidate.value ≠ value → answer ≠ .ok ()) := by
  intro put
  obtain ⟨d, hdiscover, -, hitem⟩ := discover_of_built hbuilt
  let written := MutableItem.sign seed value (seen.plus 1) salt
  refine ⟨written, hitem, rfl, fun sent hsent => (item_of_mem_puts hbuilt sent hsent).trans hitem, ?_⟩
  intro candidate hread
  have htarget : candidate.target = written.target := (isValidFor_of_mem_reads hbuilt hread).1
  have hseq : candidate.seq < written.seq ∨
      candidate.seq = Int64.maxValue ∧ written.seq = Int64.maxValue :=
    Seq.lt_plus_one_or ((le_highestSeq_of_reading (readAll_of_built hbuilt)).2 candidate hread)
  refine ⟨htarget, hseq, fun n hheld requester token => ?_⟩
  have hobjects : n.Objects requester ⟨token, .mutable written⟩ .outdated ↔
      candidate.seq = Int64.maxValue ∧ candidate.value ≠ value := by
    constructor
    · rintro ⟨_, held, hwritten, hpeek, hlater⟩
      cases hwritten
      cases hheld.symm.trans (htarget ▸ hpeek)
      obtain hlower | ⟨hlast, hfollows⟩ := hseq
      · obtain hhigher | ⟨hsame, -⟩ := hlater
        · exact absurd (Int64.lt_trans hlower hhigher) Int64.lt_irrefl
        · exact absurd (hsame ▸ hlower) Int64.lt_irrefl
      · obtain hhigher | ⟨-, hvalue⟩ := hlater
        · rw [hlast, hfollows] at hhigher
          exact absurd hhigher Int64.lt_irrefl
        · exact ⟨hlast, Ne.symm hvalue⟩
    · rintro ⟨hlast, hvalue⟩
      obtain hlower | ⟨-, hfollows⟩ := hseq
      · exact absurd (Int64.lt_of_lt_of_le (hlast ▸ hlower) (Int64.le_maxValue _)) Int64.lt_irrefl
      · exact ⟨written, candidate, rfl, htarget ▸ hheld, .inr ⟨hfollows.trans hlast.symm, Ne.symm hvalue⟩⟩
  obtain ⟨hnone, hok⟩ | ⟨refusal, hfirst, herror⟩ := n.handlePut_spec requester ⟨token, .mutable written⟩
  · rw [hok]
    exact ⟨nofun, fun hlast => absurd (hobjects.2 hlast) (hnone _)⟩
  · rw [herror]
    refine ⟨fun houtdated => hobjects.1 ?_, fun _ => nofun⟩
    cases houtdated
    exact hfirst.1

/-- A node that holds the item that was found under 7 does not refuse the one that is written as outdated. -/
theorem put_supersedes_lone :
    let c := Client.ofLone (.after 3 (.ok { GetReply.ofMutable .sample with token := some ⟨[7]⟩ }))
    let put := c.putMutable {} default (Bytes.ofAscii "newer") none 0 ()
    let n := (StorageNode.create default default ⟨default, default⟩).store (.mutable .sample)
    ∃ written, .built 3 7 (.mutable written) ∈ put.history ∧ MutableItem.sample.seq < written.seq ∧
      (n.handlePut default ⟨n.secrets.generate default, .mutable written⟩).1 ≠ .error .outdated := by
  intro c put n
  obtain ⟨hbuilt, hread⟩ :
      .built 3 7 (.mutable (.sign default (Bytes.ofAscii "newer") 8 none)) ∈ put.history ∧
        .mutable .sample ∈ put.history.reads.map fun entry => entry.2.2 := by
    decide +kernel
  obtain ⟨written, hitem, -, -, hspec⟩ :=
    put_supersedes c {} default (Bytes.ofAscii "newer") none 0 () hbuilt
  obtain ⟨-, hhigher, hnode⟩ := hspec .sample hread
  have hbelow : MutableItem.sample.seq ≠ Int64.maxValue := by decide
  refine ⟨written, hitem ▸ hbuilt, hhigher.resolve_right fun hlast => hbelow hlast.1, fun houtdated => ?_⟩
  exact hbelow ((hnode n (RecencyCache.peek?_insert_self _ _ _ (by decide)) default _).1 houtdated).1

/-- Under the last number there is, an item is found and written again with another value. A node that holds the
    item found refuses the other one. -/
theorem last_number_not_superseded :
    let held := MutableItem.sign default (Bytes.ofAscii "value") Int64.maxValue none
    let written := MutableItem.sign default (Bytes.ofAscii "newer") Int64.maxValue none
    let c := Client.ofLone (.after 3 (.ok { GetReply.ofMutable held with token := some ⟨[7]⟩ }))
    let put := c.putMutable {} default (Bytes.ofAscii "newer") none 0 ()
    let n := (StorageNode.create default default ⟨default, default⟩).store (.mutable held)
    .mutable held ∈ put.history.reads.map (fun entry => entry.2.2) ∧
      put.history.puts = [(3, default, ⟨⟨[7]⟩, .mutable written⟩)] ∧ ¬ held.seq < written.seq ∧
      (n.handlePut default ⟨n.secrets.generate default, .mutable written⟩).1 = .error .outdated := by
  decide +kernel

end Client

end DhtStore
