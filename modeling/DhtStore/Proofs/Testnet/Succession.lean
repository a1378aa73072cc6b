import DhtStore.Proofs.StorageNode.Operations
import DhtStore.Proofs.Testnet.Mutables

namespace DhtStore

open Reader Testnet

variable {t u : Testnet} {n : StorageNode} {target : NodeId} {salt : Option Bytes} {item : MutableItem}

/-- Each node has room for a mutable item at least. -/
def Testnet.HasRoom (t : Testnet) : Prop := ∀ n ∈ t.nodes, 0 < n.mutables.capacity

namespace StorageNode

theorem capacity_lookup (n : StorageNode) (request : GetRequest) (reply : GetReply) :
    (n.lookup request reply).2.mutables.capacity = n.mutables.capacity := by
  rw [(n.caches_lookup request reply).2]
  split
  · rfl
  · exact RecencyCache.capacity_afterUse ..

end StorageNode

theorem Testnet.HasRoom.get (hroom : t.HasRoom) (address : Address) (request : GetRequest) :
    (t.get address request).2.HasRoom := by
  unfold Testnet.get
  split
  · exact hroom
  · next n hfound =>
    have hn : n ∈ t.nodes := List.mem_of_find?_eq_some (Option.filter_eq_some_iff.1 hfound).1
    split
    · exact hroom
    · refine List.forall_mem_map.2 fun m hm => ?_
      split
      · have hafter := hroom n hn
        rwa [← n.capacity_lookup request] at hafter
      · exact hroom m hm

theorem Search.hasRoom_of_exhausted {ρ : Type} {s : Search Testnet Iterative.Lookup} {read : Reader ρ}
    {init state : ρ} {start : Instant} {last : Discovery Testnet Iterative.Lookup ρ}
    (htransport : s.transport = Testnet.transport) (hroom : t.HasRoom)
    (hdiscover : s.discover read init start t = (.exhausted state, last)) : last.network.HasRoom := by
  have hkeep (time : Instant) (address : Address) (request : GetRequest) (u : Testnet) (hu : u.HasRoom) :
      (s.transport.get time address request u).2.HasRoom := by
    rw [htransport]
    exact hu.get address request
  have hafter := (History.kept_of_reading hkeep (onlyReads_of_discover hdiscover) hroom).1
  rwa [(exhausted_spec hdiscover).1.replayed] at hafter

namespace Testnet

/-- A network whose nodes all store an item that is sent to them, and where it is newer than all that a survey
    comes upon at its target. -/
structure Welcomes (t : Testnet) (target : NodeId) (salt : Option Bytes) (item : MutableItem) : Prop
    extends t.OpenTo target salt where
  room : t.HasRoom
  valid : (GetReply.ofMutable item).classify target salt = .mutable item
  valueSize : item.value.length ≤ StorageNode.maxValueSize
  saltSize : (salt.getD []).length ≤ StorageNode.maxSaltSize
  newest : t.topSeq target < item.seq

theorem Welcomes.congr (hviews : u.views = t.views) (hroom : u.HasRoom)
    (hwelcomes : t.Welcomes target salt item) : u.Welcomes target salt item where
  toOpenTo := hwelcomes.toOpenTo.congr hviews
  room := hroom
  valid := hwelcomes.valid
  valueSize := hwelcomes.valueSize
  saltSize := hwelcomes.saltSize
  newest := (topSeq_congr hviews).trans_lt hwelcomes.newest

/-- The network after an item was sent to the nodes closest to a target. -/
def overwritten (t : Testnet) (target : NodeId) (item : MutableItem) : Testnet :=
  t.written ((t.closest target bucketSize).map StorageNode.address) (.mutable item)

/-- What a node becomes when an item is sent to the nodes closest to a target, of which it may be one. -/
def heir (t : Testnet) (target : NodeId) (item : MutableItem) (n : StorageNode) : StorageNode :=
  if n.address ∈ (t.closest target bucketSize).map StorageNode.address then
    n.receive (n.putRequest (.mutable item))
  else n

theorem becomes_heir (t : Testnet) (target : NodeId) (item : MutableItem) (n : StorageNode) :
    n.Becomes (t.heir target item n) := by
  unfold heir
  split
  · exact .receive n _
  · exact .refl n

section

variable (hformed : t.WellFormed) (hwelcomes : t.Welcomes target salt item)

include hformed hwelcomes

/-- The nodes that are closest to the target have nothing to object to, as they were all surveyed. -/
theorem Welcomes.accepts (hn : n ∈ t.closest target bucketSize) : n.Accepts (.mutable item) := by
  obtain ⟨-, -, htarget, hsalt, -, hverifies⟩ := GetReply.classify_eq_mutable_iff.1 hwelcomes.valid
  obtain rfl := hsalt
  obtain rfl := htarget
  refine ⟨hwelcomes.valueSize, hwelcomes.saltSize, hverifies, fun held hheld => ?_⟩
  have hlt : held.seq < item.seq :=
    Int64.lt_of_le_of_lt (le_topSeq ((mem_surveyed hformed).2 (.inr hn)) hheld) hwelcomes.newest
  have hnotLess : ¬ item.seq < held.seq := Int64.not_lt.2 (Int64.le_of_lt hlt)
  have hne : item.seq ≠ held.seq := fun heq => Int64.lt_irrefl (heq ▸ hlt)
  simp [StorageNode.isOutdated, hnotLess, hne]

/-- The nodes closest to the target store the item, and the others stay as they are. -/
theorem heir_spec (hn : n ∈ t.nodes) :
    n ∈ t.closest target bucketSize ∧ t.heir target item n = n.store (.mutable item) ∨
      n ∉ t.closest target bucketSize ∧ t.heir target item n = n := by
  have hclosest : n.address ∈ (t.closest target bucketSize).map StorageNode.address ↔
      n ∈ t.closest target bucketSize := by
    refine ⟨fun hmem => ?_, List.mem_map_of_mem⟩
    obtain ⟨m, hm, hsame⟩ := List.mem_map.1 hmem
    rwa [← eq_of_address_eq hformed (mem_of_mem_closest hm) hn hsame]
  by_cases hmem : n ∈ t.closest target bucketSize
  · refine .inl ⟨hmem, ?_⟩
    have hhonest := hwelcomes.honest n hn
    have hwilling : n.behavior ≠ .rejectWrites := by
      rw [hhonest]
      nofun
    rw [heir, if_pos (hclosest.2 hmem), StorageNode.receive, hhonest]
    exact congrArg Prod.snd (StorageNode.handlePut_of_accepts hwilling (hwelcomes.accepts hformed hmem))
  · exact .inr ⟨hmem, if_neg (mt hclosest.1 hmem)⟩

/-- At the target the nodes closest to it hold the item, and the others what they held before. -/
theorem peek?_heir (hn : n ∈ t.nodes) :
    n ∈ t.closest target bucketSize ∧ (t.heir target item n).mutables.peek? target = some item ∨
      n ∉ t.closest target bucketSize ∧
        (t.heir target item n).mutables.peek? target = n.mutables.peek? target := by
  obtain ⟨-, -, rfl, -⟩ := GetReply.classify_eq_mutable_iff.1 hwelcomes.valid
  obtain ⟨hmem, hheir⟩ | ⟨hmem, hheir⟩ := heir_spec hformed hwelcomes hn
  · refine .inl ⟨hmem, ?_⟩
    rw [hheir]
    exact RecencyCache.peek?_insert_self n.mutables item.target item (hwelcomes.room n hn)
  · exact .inr ⟨hmem, by rw [hheir]⟩

theorem openTo_overwritten : (t.overwritten target item).OpenTo target salt := by
  refine ⟨List.forall_mem_map.2 fun n hn => ?_, List.forall_mem_map.2 fun n hn => ?_,
    List.forall_mem_map.2 fun n hn held hheld => ?_⟩
  · obtain ⟨-, hheir⟩ | ⟨-, hheir⟩ := heir_spec hformed hwelcomes hn
    all_goals exact (congrArg StorageNode.behavior hheir).trans (hwelcomes.honest n hn)
  · obtain ⟨-, hheir⟩ | ⟨-, hheir⟩ := heir_spec hformed hwelcomes hn
    all_goals exact (congrArg (·.immutables.peek? target) hheir).trans (hwelcomes.vacant n hn)
  · obtain ⟨-, hpeek⟩ | ⟨-, hpeek⟩ := peek?_heir hformed hwelcomes hn
    · cases hheld.symm.trans hpeek
      exact ⟨item, hwelcomes.valid⟩
    · exact hwelcomes.accepted n hn held (hpeek.symm.trans hheld)

theorem holds_overwritten :
    ∀ n ∈ (t.overwritten target item).closest target bucketSize, n.Holds target (.mutable item) := by
  have hclosest : (t.overwritten target item).closest target bucketSize =
      (t.closest target bucketSize).map (t.heir target item) :=
    closest_map (fun n => (becomes_heir t target item n).id) target bucketSize
  rw [hclosest]
  refine List.forall_mem_map.2 fun n hn => ?_
  obtain ⟨-, hpeek⟩ | ⟨hnot, -⟩ := peek?_heir hformed hwelcomes (mem_of_mem_closest hn)
  · exact hpeek
  · exact absurd hn hnot

/-- Of all that a later survey comes upon the item is the newest, as the nodes that it was not sent to hold only
    what an earlier survey came upon. -/
theorem leads_overwritten (hsome : t.nodes ≠ []) : (t.overwritten target item).Leads target item := by
  have hafter : (t.overwritten target item).WellFormed := hformed.written _ _
  have hsurveyed : (t.overwritten target item).surveyed target = (t.surveyed target).map (t.heir target item) :=
    surveyed_map (fun n => (becomes_heir t target item n).id) fun n => (becomes_heir t target item n).address
  refine ⟨?_, ?_⟩
  · have hnodes : (t.overwritten target item).nodes ≠ [] := mt List.map_eq_nil_iff.1 hsome
    obtain ⟨n, hn⟩ := exists_mem_closest hnodes target
    exact ⟨n, (mem_surveyed hafter).2 (.inr hn), holds_overwritten hformed hwelcomes n hn⟩
  · rw [hsurveyed]
    refine List.forall_mem_map.2 fun n hn other hother => ?_
    obtain ⟨-, hpeek⟩ | ⟨-, hpeek⟩ := peek?_heir hformed hwelcomes (mem_of_mem_surveyed hn)
    · cases hother.symm.trans hpeek
      exact .inl rfl
    · exact .inr (Int64.lt_of_le_of_lt (le_topSeq hn (hpeek.symm.trans hother)) hwelcomes.newest)

end

end Testnet

end DhtStore
