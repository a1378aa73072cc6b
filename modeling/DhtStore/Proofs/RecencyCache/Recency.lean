import DhtStore.Proofs.RecencyCache
import Mathlib.Data.List.DropRight

namespace DhtStore.RecencyCache

section Lists

variable {α : Type}

/-- Nothing is found in the front of a list if all of that comes before what would be found. -/
theorem find?_take (p : α → Bool) (m : Nat) (l : List α) :
    (l.take m).find? p = if (l.takeWhile (!p ·)).length < m then l.find? p else none := by
  induction l generalizing m with
  | nil => simp only [List.take_nil, List.find?_nil, ite_self]
  | cons a l ih =>
    cases m with
    | zero => simp
    | succ m => cases hp : p a <;> simp [hp, ih]

theorem takeWhile_filter {p q : α → Bool} (hpass : ∀ a, q a = false → p a = true) (l : List α) :
    (l.filter p).takeWhile q = (l.takeWhile q).filter p := by
  induction l with
  | nil => rfl
  | cons a l ih =>
    cases hq : q a with
    | false => simp [hpass a hq, hq]
    | true => cases hp : p a <;> simp [hp, hq, ih]

end Lists

variable {κ ν : Type} [DecidableEq κ] {c : RecencyCache κ ν} {entries : List (κ × ν)}

/-- A cache after the use of entries, one after the other. -/
def afterUses (c : RecencyCache κ ν) (uses : List (κ × ν)) : RecencyCache κ ν :=
  uses.foldl (fun c used => c.insert used.1 used.2) c

/-- What a cache without a bound holds after the use of entries, the one used last first. -/
def recency (uses : List (κ × ν)) : List (κ × ν) :=
  uses.foldl (fun entries used => used :: entries.filter (·.1 ≠ used.1)) []

/-- The last value of a key among entries. -/
def last? (key : κ) (entries : List (κ × ν)) : Option ν :=
  (entries.reverse.find? (·.1 = key)).map Prod.snd

/-- The keys used after the last use of a key, or all of them if it never was used. -/
def keysSince (key : κ) (uses : List (κ × ν)) : Finset κ :=
  ((uses.map Prod.fst).rtakeWhile (· ≠ key)).toFinset

theorem afterUses_concat (c : RecencyCache κ ν) (uses : List (κ × ν)) (used : κ × ν) :
    c.afterUses (uses ++ [used]) = (c.afterUses uses).insert used.1 used.2 :=
  List.foldl_concat ..

theorem recency_concat (uses : List (κ × ν)) (used : κ × ν) :
    recency (uses ++ [used]) = used :: (recency uses).filter (·.1 ≠ used.1) :=
  List.foldl_concat ..

theorem last?_concat (key : κ) (entries : List (κ × ν)) (entry : κ × ν) :
    last? key (entries ++ [entry]) = if entry.1 = key then some entry.2 else last? key entries := by
  rw [last?, List.reverse_concat, List.find?_cons]
  by_cases hsame : entry.1 = key <;> simp [hsame, last?]

theorem keysSince_concat (key : κ) (uses : List (κ × ν)) (used : κ × ν) :
    keysSince key (uses ++ [used]) =
      if used.1 = key then ∅ else Insert.insert used.1 (keysSince key uses) := by
  rw [keysSince, List.map_append, List.map_singleton, List.rtakeWhile_concat]
  by_cases hsame : used.1 = key
  · simp [hsame]
  · simp [hsame, keysSince, List.toFinset_append, Finset.union_comm]

theorem nodup_recency (uses : List (κ × ν)) : ((recency uses).map Prod.fst).Nodup := by
  induction uses using List.reverseRecOn with
  | nil => exact .nil
  | append_singleton uses used ih =>
    rw [recency_concat]
    exact nodup_moved ih used.1 used.2

theorem find?_recency (uses : List (κ × ν)) (key : κ) :
    (recency uses).find? (·.1 = key) = uses.reverse.find? (·.1 = key) := by
  induction uses using List.reverseRecOn with
  | nil => rfl
  | append_singleton uses used ih =>
    rw [recency_concat, List.reverse_concat, List.find?_cons, List.find?_cons]
    split
    · rfl
    · next hne => rw [find?_filter_of_ne (by simpa using hne), ih]

/-- In front of a key stand the keys that were used since. -/
theorem toFinset_keys_takeWhile_recency (uses : List (κ × ν)) (key : κ) :
    (((recency uses).takeWhile (·.1 ≠ key)).map Prod.fst).toFinset = keysSince key uses := by
  induction uses using List.reverseRecOn with
  | nil => rfl
  | append_singleton uses used ih =>
    rw [recency_concat, keysSince_concat]
    split
    · next hsame => simp [hsame]
    · next hne =>
      have hpass (entry : κ × ν) (hentry : decide (entry.1 ≠ key) = false) :
          decide (entry.1 ≠ used.1) = true := by
        simp_all [Ne.symm hne]
      rw [List.takeWhile_cons_of_pos (by simpa using hne), takeWhile_filter hpass, ← ih]
      -- The key used moves to the front, so it does not matter whether it stood there before.
      ext k
      simp only [List.map_cons, List.toFinset_cons, Finset.mem_insert, List.mem_toFinset, List.mem_map,
        List.mem_filter]
      grind

theorem length_takeWhile_recency (uses : List (κ × ν)) (key : κ) :
    ((recency uses).takeWhile (·.1 ≠ key)).length = (keysSince key uses).card := by
  have hnodup := (nodup_recency uses).sublist ((List.takeWhile_sublist (·.1 ≠ key)).map Prod.fst)
  rw [← toFinset_keys_takeWhile_recency, List.toFinset_card_of_nodup hnodup, List.length_map]

/-- To move a key to the front, it does not take more of the entries than there is room for. -/
theorem take_filter_take {room : Nat} (hnodup : (entries.map Prod.fst).Nodup) (key : κ) :
    ((entries.take (room + 1)).filter (·.1 ≠ key)).take room = (entries.filter (·.1 ≠ key)).take room := by
  induction entries generalizing room with
  | nil => rfl
  | cons entry entries ih =>
    obtain ⟨hnew, hrest⟩ := List.nodup_cons.1 hnodup
    by_cases hkey : entry.1 = key
    · have hothers (l : List (κ × ν)) (hl : l ⊆ entries) : l.filter (·.1 ≠ key) = l := by
        refine List.filter_eq_self.2 fun other hother => decide_eq_true fun hsame => hnew ?_
        exact List.mem_map.2 ⟨other, hl hother, hsame.trans hkey.symm⟩
      have hdrop : decide (entry.1 ≠ key) = false := by simpa using hkey
      simp only [List.take_succ_cons, List.filter_cons, hdrop, Bool.false_eq_true, if_false]
      rw [hothers _ (List.take_subset ..), hothers _ (List.Subset.refl _), List.take_take, Nat.min_self]
    · have hkeep : decide (entry.1 ≠ key) = true := by simpa using hkey
      simp only [List.take_succ_cons, List.filter_cons, hkeep, if_true]
      cases room with
      | zero => rfl
      | succ room => rw [List.take_succ_cons, List.take_succ_cons, ih hrest]

/-- A cache that began empty holds the front of what it would hold without a bound. -/
theorem entries_afterUses (hempty : c.entries = []) (uses : List (κ × ν)) :
    (c.afterUses uses).capacity = c.capacity ∧ (c.afterUses uses).entries = (recency uses).take c.capacity := by
  induction uses using List.reverseRecOn with
  | nil =>
    refine ⟨rfl, hempty.trans ?_⟩
    rw [recency, List.foldl_nil, List.take_nil]
  | append_singleton uses used ih =>
    obtain ⟨hcapacity, hentries⟩ := ih
    rw [afterUses_concat, recency_concat]
    refine ⟨hcapacity, ?_⟩
    change (used :: (c.afterUses uses).entries.filter (·.1 ≠ used.1)).take (c.afterUses uses).capacity = _
    rw [hcapacity, hentries]
    cases c.capacity with
    | zero => rfl
    | succ room => rw [List.take_succ_cons, List.take_succ_cons, take_filter_take (nodup_recency uses)]

/-- A key is forgotten as soon as too many others were used since; until then its last value is held. -/
theorem peek?_afterUses (hempty : c.entries = []) (uses : List (κ × ν)) (key : κ) :
    (c.afterUses uses).peek? key =
      if (keysSince key uses).card < c.capacity then last? key uses else none := by
  have hfront : (recency uses).takeWhile (fun entry => !decide (entry.1 = key)) =
      (recency uses).takeWhile (·.1 ≠ key) := by
    simp
  rw [peek?, (entries_afterUses hempty uses).2, find?_take, hfront, length_takeWhile_recency, find?_recency,
    last?]
  split <;> rfl

/-- With room for two entries, the use of 1 makes 2 the one that has to go when 3 comes. -/
example : (RecencyCache.afterUses ⟨2, []⟩ [(1, 'a'), (2, 'b'), (1, 'c'), (3, 'd')]).entries =
    [(3, 'd'), (1, 'c')] := by decide

end DhtStore.RecencyCache
