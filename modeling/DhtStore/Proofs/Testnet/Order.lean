import DhtStore.Proofs.NodeId.Order
import DhtStore.Testnet
import Mathlib.Data.List.Perm.Basic

namespace DhtStore

variable {α β : Type} {target : NodeId}

theorem perm_insertByDistance (x : NodeId × α) (ys : List (NodeId × α)) :
    (insertByDistance x ys).Perm (x :: ys) := by
  induction ys with
  | nil => exact .refl _
  | cons y ys ih =>
    unfold insertByDistance
    split
    · exact (ih.cons y).trans (.swap x y ys)
    · exact .refl _

theorem pairwise_insertByDistance {x : NodeId × α} {ys : List (NodeId × α)}
    (hsorted : ys.Pairwise fun y later => ¬ later.1 < y.1) :
    (insertByDistance x ys).Pairwise fun y later => ¬ later.1 < y.1 := by
  induction ys with
  | nil => exact List.pairwise_singleton ..
  | cons y ys ih =>
    obtain ⟨hy, hys⟩ := List.pairwise_cons.1 hsorted
    unfold insertByDistance
    split
    · next hcloser =>
      refine List.pairwise_cons.2 ⟨fun later hlater => ?_, ih hys⟩
      obtain rfl | hmem := List.mem_cons.1 ((perm_insertByDistance x ys).mem_iff.1 hlater)
      · exact List.lt_asymm hcloser
      · exact hy later hmem
    · next hfarther =>
      refine List.pairwise_cons.2 ⟨fun later hlater => ?_, hsorted⟩
      obtain rfl | hmem := List.mem_cons.1 hlater
      · exact hfarther
      · exact List.not_lt.2 (List.le_trans (List.not_lt.1 hfarther) (List.not_lt.1 (hy later hmem)))

theorem map_insertByDistance (g : α → β) (x : NodeId × α) (ys : List (NodeId × α)) :
    (insertByDistance x ys).map (Prod.map id g) =
      insertByDistance (Prod.map id g x) (ys.map (Prod.map id g)) := by
  induction ys with
  | nil => rfl
  | cons y ys ih =>
    by_cases hcloser : y.1 < x.1 <;> simp [insertByDistance, hcloser, ih]

theorem perm_foldr_insertByDistance (xs : List (NodeId × α)) : (xs.foldr insertByDistance []).Perm xs := by
  induction xs with
  | nil => exact .nil
  | cons x xs ih => exact (perm_insertByDistance x _).trans (ih.cons x)

theorem pairwise_foldr_insertByDistance (xs : List (NodeId × α)) :
    (xs.foldr insertByDistance []).Pairwise fun x later => ¬ later.1 < x.1 := by
  induction xs with
  | nil => exact .nil
  | cons x xs ih => exact pairwise_insertByDistance ih

section

variable {idOf : α → NodeId} {xs : List α}

theorem perm_sortByDistance : (sortByDistance idOf target xs).Perm xs := by
  refine ((perm_foldr_insertByDistance _).map Prod.snd).trans (.of_eq ?_)
  rw [List.map_map]
  exact List.map_id xs

/-- Elements of different ids stand in the strict order of their distance. -/
theorem pairwise_sortByDistance (hnodup : (xs.map idOf).Nodup) :
    (sortByDistance idOf target xs).Pairwise fun x later => NodeId.CloserTo target (idOf x) (idOf later) := by
  have hsorted : (sortByDistance idOf target xs).Pairwise fun x later =>
      ¬ NodeId.CloserTo target (idOf later) (idOf x) := by
    refine List.pairwise_map.2 ((pairwise_foldr_insertByDistance _).imp_of_mem ?_)
    intro x later hx hlater hnot
    obtain ⟨x, -, rfl⟩ := List.mem_map.1 ((perm_foldr_insertByDistance _).mem_iff.1 hx)
    obtain ⟨later, -, rfl⟩ := List.mem_map.1 ((perm_foldr_insertByDistance _).mem_iff.1 hlater)
    exact hnot
  have hapart : (sortByDistance idOf target xs).Pairwise fun x later => idOf later ≠ idOf x := by
    have hids : ((sortByDistance idOf target xs).map idOf).Nodup :=
      (perm_sortByDistance.map idOf).nodup_iff.2 hnodup
    exact (List.pairwise_map.1 hids).imp Ne.symm
  exact (hapart.and hsorted).imp fun ⟨hne, hnot⟩ => NodeId.CloserTo.of_not hne hnot

theorem map_sortByDistance {g : α → β} {idOf' : β → NodeId} (hid : ∀ x, idOf' (g x) = idOf x) :
    (sortByDistance idOf target xs).map g = sortByDistance idOf' target (xs.map g) := by
  have hfoldr (keyed : List (NodeId × α)) : (keyed.foldr insertByDistance []).map (Prod.map id g) =
      (keyed.map (Prod.map id g)).foldr insertByDistance [] := by
    induction keyed with
    | nil => rfl
    | cons x keyed ih => simp [map_insertByDistance, ih]
  calc (sortByDistance idOf target xs).map g
      = (((xs.map fun x => ((idOf x).xor target, x)).foldr insertByDistance []).map
          (Prod.map id g)).map Prod.snd := by
        simp [sortByDistance, Function.comp_def]
    _ = sortByDistance idOf' target (xs.map g) := by
        rw [hfoldr]
        simp [sortByDistance, Function.comp_def, hid]

end

end DhtStore
