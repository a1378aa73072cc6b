import DhtStore.Proofs.ClosestNodes
import DhtStore.Proofs.Testnet.StorageNode
import DhtStore.Testnet
import Mathlib.Data.List.Nodup

namespace DhtStore.Testnet

variable {t : Testnet} {n : StorageNode} {target : NodeId} {address : Address}

/-- How many indices the last three bytes of an address tell apart. -/
def capacity : Nat := 256 * 256 * 256

/-- A network that may have been created, with any ids that differ, and used since. -/
structure WellFormed (t : Testnet) : Prop where
  size : t.nodes.length ≤ capacity
  addresses : t.nodes.map StorageNode.address = (List.range t.nodes.length).map addressOf
  ids : (t.nodes.map StorageNode.id).Nodup
  fits : ∀ n ∈ t.nodes, n.Fits

/-- The index fills three bytes of the address, so it can be told from it. -/
theorem addressOf_injOn {i j : Nat} (hi : i < capacity) (hj : j < capacity) (heq : addressOf i = addressOf j) :
    i = j := by
  injection heq with hhost
  injection hhost with hbytes
  simp only [List.cons.injEq, and_true, true_and] at hbytes
  obtain ⟨hhigh, hmiddle, hlow⟩ := hbytes
  have htoNat {a b : Nat} (hbyte : UInt8.ofNat a = UInt8.ofNat b) : a % 256 = b % 256 := by
    simpa using congrArg UInt8.toNat hbyte
  have hhigh := htoNat hhigh
  have hmiddle := htoNat hmiddle
  have hlow := htoNat hlow
  unfold capacity at hi hj
  omega

theorem WellFormed.addresses_nodup (hformed : t.WellFormed) : (t.nodes.map StorageNode.address).Nodup := by
  rw [hformed.addresses]
  refine List.Nodup.map_on (fun i hi j hj heq => ?_) List.nodup_range
  have hsize := hformed.size
  exact addressOf_injOn (Nat.lt_of_lt_of_le (List.mem_range.1 hi) hsize)
    (Nat.lt_of_lt_of_le (List.mem_range.1 hj) hsize) heq

theorem createFrom_spec (index : Nat) (ids : List NodeId) (count : Nat) (d : Draws) :
    (createFrom index ids count d).map StorageNode.address =
        (List.range' index count).map addressOf ∧
      ∀ n ∈ createFrom index ids count d, n.Fits := by
  induction count generalizing index ids d with
  | zero => exact ⟨rfl, nofun⟩
  | succ count ih =>
    have hrest := ih (index + 1) (ids.drop 1)
    unfold createFrom
    refine ⟨?_, List.forall_mem_cons.2 ⟨.create .., (hrest _).2⟩⟩
    rw [List.map_cons, (hrest _).1, List.range'_succ]
    rfl

/-- Every creation of few enough nodes is well-formed, if no id was drawn or given twice. -/
theorem wellFormed_create {count : Nat} {ids : List NodeId} {d : Draws} (hcount : count ≤ capacity)
    (hids : ((create count ids d).nodes.map StorageNode.id).Nodup) : (create count ids d).WellFormed := by
  obtain ⟨haddresses, hfits⟩ := createFrom_spec 0 ids count d
  have hlength : (createFrom 0 ids count d).length = count := by
    simpa using congrArg List.length haddresses
  refine ⟨?_, ?_, hids, hfits⟩
  · exact Nat.le_trans (Nat.le_of_eq hlength) hcount
  · change (createFrom 0 ids count d).map StorageNode.address =
      (List.range (createFrom 0 ids count d).length).map addressOf
    rw [haddresses, hlength, List.range_eq_range']

section

variable (hformed : t.WellFormed)

include hformed

/-- What is done to the nodes of a network keeps it well-formed, as long as they stay the same nodes. -/
theorem WellFormed.map {f : StorageNode → StorageNode} (hbecomes : ∀ n ∈ t.nodes, n.Becomes (f n)) :
    (⟨t.nodes.map f⟩ : Testnet).WellFormed where
  size := by simpa using hformed.size
  addresses := by
    rw [List.length_map, ← hformed.addresses, List.map_map]
    exact List.map_congr_left fun n hn => (hbecomes n hn).address
  ids := by
    have hsame : (t.nodes.map f).map StorageNode.id = t.nodes.map StorageNode.id := by
      rw [List.map_map]
      exact List.map_congr_left fun n hn => (hbecomes n hn).id
    rw [hsame]
    exact hformed.ids
  fits := List.forall_mem_map.2 fun n hn => (hbecomes n hn).fits (hformed.fits n hn)

theorem WellFormed.modifyAll (addresses : List Address) {f : StorageNode → StorageNode}
    (hbecomes : ∀ n : StorageNode, n.Becomes (f n)) : (t.modifyAll addresses f).WellFormed := by
  refine hformed.map fun n _ => ?_
  split
  · exact hbecomes n
  · exact .refl n

theorem WellFormed.seed (item : Item) : (t.seed item).WellFormed :=
  hformed.modifyAll _ fun n => .store n item

theorem WellFormed.setBehavior (addresses : List Address) (behavior : Behavior) :
    (t.setBehavior addresses behavior).WellFormed :=
  hformed.modifyAll addresses fun n => .setBehavior n behavior

theorem WellFormed.setBehaviorOfAll (behavior : Behavior) : (t.setBehaviorOfAll behavior).WellFormed :=
  hformed.map fun n _ => .setBehavior n behavior

theorem WellFormed.inspect (target : NodeId) : (t.inspect target).2.WellFormed := by
  have hafter := hformed.map fun n _ => .item n target
  simpa [Testnet.inspect, Function.comp_def] using hafter

/-- The node at an address is the only one there. -/
theorem node?_eq_some_iff : t.node? address = some n ↔ n ∈ t.nodes ∧ n.address = address :=
  find?_key_eq_some_iff StorageNode.address hformed.addresses_nodup

theorem eq_of_id_eq {m : StorageNode} (hn : n ∈ t.nodes) (hm : m ∈ t.nodes) (hid : n.id = m.id) : n = m :=
  List.inj_on_of_nodup_map hformed.ids hn hm hid

theorem eq_of_address_eq {m : StorageNode} (hn : n ∈ t.nodes) (hm : m ∈ t.nodes)
    (haddress : n.address = m.address) : n = m :=
  List.inj_on_of_nodup_map hformed.addresses_nodup hn hm haddress

/-- A node may become another one by itself, as no other is at its address. -/
theorem WellFormed.modify (hn : n ∈ t.nodes) {after : StorageNode} (hbecomes : n.Becomes after) :
    (t.modify n.address fun _ => after).WellFormed := by
  refine hformed.map fun m hm => ?_
  split
  · next hsame =>
    rw [eq_of_address_eq hformed hm hn hsame]
    exact hbecomes
  · exact .refl m

/-- Whatever is put at a node, accepted or refused, the network stays well-formed. -/
theorem WellFormed.put (address : Address) (request : PutRequest) :
    (t.put address request).2.WellFormed := by
  unfold Testnet.put
  split
  · exact hformed
  · next n hfound =>
    obtain ⟨hn, rfl⟩ := (node?_eq_some_iff hformed).1 (Option.filter_eq_some_iff.1 hfound).1
    split
    · exact hformed
    · exact hformed.modify hn (.handlePut n clientAddress request)

end

end DhtStore.Testnet
