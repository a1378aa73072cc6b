import DhtStore.NodeId
import DhtStore.Proofs.Bytes
import Mathlib.Order.Defs.LinearOrder

namespace DhtStore.NodeId

variable {target a b c : NodeId}

/-- Different ids lie at different distances. -/
theorem xor_right_cancel (hxor : a.xor target = b.xor target) : a = b := by
  have hbytes : List.zipWith (· ^^^ ·) a.bytes target.bytes =
      List.zipWith (· ^^^ ·) b.bytes target.bytes := congrArg bytes hxor
  refine ext (List.ext_getElem (a.length_bytes.trans b.length_bytes.symm) fun i ha hb => ?_)
  have htarget : i < target.bytes.length := by
    rw [target.length_bytes, ← a.length_bytes]
    exact ha
  have hbyte := congrArg (·[i]?) hbytes
  simpa [List.getElem?_zipWith, ha, hb, htarget] using hbyte

/-- Ids are ordered as the numbers that they spell. -/
theorem lt_iff_toNat_lt : a < b ↔ a.toNat < b.toNat :=
  Bytes.lt_iff_toNatBE_lt (a.length_bytes.trans b.length_bytes.symm)

namespace CloserTo

theorem irrefl : ¬ CloserTo target a a := List.lt_irrefl _

theorem trans (hab : CloserTo target a b) (hbc : CloserTo target b c) : CloserTo target a c :=
  List.lt_trans hab hbc

theorem asymm (hab : CloserTo target a b) : ¬ CloserTo target b a := fun hba => irrefl (hab.trans hba)

theorem total (hne : a ≠ b) : CloserTo target a b ∨ CloserTo target b a := by
  by_contra hneither
  obtain ⟨hab, hba⟩ := not_or.1 hneither
  have hbytes := List.le_antisymm (List.not_lt.1 hba) (List.not_lt.1 hab)
  exact hne (xor_right_cancel (ext hbytes))

/-- What is not closer than another id is farther, unless it is that id. -/
theorem of_not (hne : a ≠ b) (hnot : ¬ CloserTo target a b) : CloserTo target b a :=
  (total hne).resolve_left hnot

section

variable {α : Type} (idOf : α → NodeId)

/-- The order of elements by the distance of their ids is strict. -/
instance : Std.Irrefl fun x later : α => CloserTo target (idOf x) (idOf later) := ⟨fun _ => irrefl⟩

instance : Std.Antisymm fun x later : α => CloserTo target (idOf x) (idOf later) :=
  ⟨fun _ _ hcloser hfarther => absurd hfarther hcloser.asymm⟩

end

end CloserTo

end DhtStore.NodeId
