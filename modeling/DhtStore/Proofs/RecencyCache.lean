import DhtStore.RecencyCache
import Mathlib.Data.Finset.Card
import Mathlib.Data.Finset.Dedup

namespace DhtStore.RecencyCache

variable {κ ν : Type} [DecidableEq κ] {c : RecencyCache κ ν} {key other : κ} {value new : ν}
  {entry : κ × ν}

theorem mem_entries_of_peek? (hheld : c.peek? key = some value) : (key, value) ∈ c.entries := by
  obtain ⟨entry, hfound, rfl⟩ := Option.map_eq_some_iff.1 hheld
  have hkey : entry.1 = key := by simpa using List.find?_some hfound
  rw [← hkey]
  exact List.mem_of_find?_eq_some hfound

theorem mem_entries_insert (hmem : entry ∈ (c.insert key value).entries) :
    entry = (key, value) ∨ entry ∈ c.entries :=
  (List.mem_cons.1 (List.mem_of_mem_take hmem)).imp_right fun hold => (List.mem_filter.1 hold).1

@[simp] theorem capacity_insert (c : RecencyCache κ ν) (key : κ) (value : ν) :
    (c.insert key value).capacity = c.capacity := rfl

/-- A cache after the use of an entry, if one was used. -/
def afterUse (c : RecencyCache κ ν) (used : Option (κ × ν)) : RecencyCache κ ν :=
  used.elim c fun entry => c.insert entry.1 entry.2

/-- The entry held under a key. -/
def entry? (c : RecencyCache κ ν) (key : κ) : Option (κ × ν) := (c.peek? key).map (key, ·)

theorem peek?_of_entry? {sought : κ} (hfound : c.entry? sought = some (key, value)) :
    c.peek? key = some value := by
  obtain ⟨held, hheld, hentry⟩ := Option.map_eq_some_iff.1 hfound
  cases hentry
  exact hheld

/-- To look for a key is to use the entry held under it. -/
theorem snd_use (c : RecencyCache κ ν) (key : κ) : (c.use key).2 = c.afterUse (c.entry? key) := by
  unfold use entry?
  cases c.peek? key <;> rfl

@[simp] theorem capacity_afterUse (c : RecencyCache κ ν) (used : Option (κ × ν)) :
    (c.afterUse used).capacity = c.capacity := by
  cases used <;> rfl

theorem Fits.afterUse (hfits : c.Fits) (used : Option (κ × ν)) : (c.afterUse used).Fits := by
  cases used with
  | none => exact hfits
  | some entry => exact c.length_entries_insert_le ..

theorem mem_entries_afterUse {used : Option (κ × ν)} (hmem : entry ∈ (c.afterUse used).entries) :
    used = some entry ∨ entry ∈ c.entries := by
  cases used with
  | none => exact .inr hmem
  | some new => exact (mem_entries_insert hmem).imp_left fun heq => congrArg some heq.symm

theorem peek?_eq_none_iff : c.peek? key = none ↔ key ∉ c.entries.map Prod.fst := by
  simp only [peek?, Option.map_eq_none_iff, List.find?_eq_none, List.mem_map, decide_eq_true_eq]
  constructor
  · rintro hnone ⟨entry, hentry, hkey⟩
    exact hnone entry hentry hkey
  · exact fun hnone entry hentry hkey => hnone ⟨entry, hentry, hkey⟩

/-- A list of entries without two under one key is still so after one of them, or a new one, came to its front. -/
theorem nodup_moved {entries : List (κ × ν)} (hnodup : (entries.map Prod.fst).Nodup) (key : κ) (value : ν) :
    (((key, value) :: entries.filter (·.1 ≠ key)).map Prod.fst).Nodup := by
  refine List.nodup_cons.2 ⟨fun hmem => ?_, hnodup.sublist (List.filter_sublist.map Prod.fst)⟩
  obtain ⟨entry, hentry, hkey⟩ := List.mem_map.1 hmem
  exact of_decide_eq_true (List.mem_filter.1 hentry).2 hkey

/-- An entry that comes to the front of others leaves none of them out. -/
theorem perm_moved (hnodup : (c.entries.map Prod.fst).Nodup) (hheld : c.peek? key = some value) :
    ((key, value) :: c.entries.filter (·.1 ≠ key)).Perm c.entries := by
  obtain ⟨newer, older, hentries⟩ := List.append_of_mem (mem_entries_of_peek? hheld)
  rw [hentries, List.map_append, List.map_cons, List.nodup_middle, List.nodup_cons, ← List.map_append] at hnodup
  have hothers : (newer ++ older).filter (·.1 ≠ key) = newer ++ older := by
    refine List.filter_eq_self.2 fun entry hentry => decide_eq_true fun hkey => hnodup.1 ?_
    exact List.mem_map.2 ⟨entry, hentry, hkey⟩
  have hfilter : c.entries.filter (·.1 ≠ key) = (newer ++ older).filter (·.1 ≠ key) := by
    rw [hentries, List.filter_append, List.filter_cons, List.filter_append]
    simp
  rw [hfilter, hothers, hentries]
  exact List.perm_middle.symm

/-- A cache with room for entries, which holds no more of them than that and no two under one key. -/
structure Sound (c : RecencyCache κ ν) : Prop where
  room : 0 < c.capacity
  fits : c.Fits
  nodup : (c.entries.map Prod.fst).Nodup

/-- What the use of an entry makes of a cache. It is the entry used last; the others are as they were, in the
    order in which they were, except that the one used least recently is gone if it was new to a full cache. -/
structure Receives (c : RecencyCache κ ν) (key : κ) (value : ν) (after : RecencyCache κ ν) : Prop where
  capacity : after.capacity = c.capacity
  spared : (c.peek? key).isSome = true ∨ c.entries.length < c.capacity →
    after.entries = (key, value) :: c.entries.filter (·.1 ≠ key)
  evicted : c.peek? key = none → c.entries.length = c.capacity →
    ∃ kept last, c.entries = kept ++ [last] ∧ after.entries = (key, value) :: kept

/-- What the use of an entry that it holds makes of a cache. It holds the same entries; this one is the one used
    last, and the others are in the order in which they were. -/
structure Recalls (c : RecencyCache κ ν) (key : κ) (value : ν) (after : RecencyCache κ ν) : Prop where
  capacity : after.capacity = c.capacity
  held : c.peek? key = some value
  entries : after.entries = (key, value) :: c.entries.filter (·.1 ≠ key)
  perm : after.entries.Perm c.entries

namespace Sound

/-- There is room for an entry that comes to the front, if it was held before or the cache is not full. -/
theorem length_moved_le (hsound : c.Sound) (hroom : (c.peek? key).isSome = true ∨ c.entries.length < c.capacity) :
    ((key, value) :: c.entries.filter (·.1 ≠ key)).length ≤ c.capacity := by
  obtain hheld | hspare := hroom
  · obtain ⟨held, hheld⟩ := Option.isSome_iff_exists.1 hheld
    rw [List.length_cons, ← List.length_cons (a := (key, held)), (perm_moved hsound.nodup hheld).length_eq]
    exact hsound.fits
  · exact Nat.le_trans (Nat.succ_le_succ (List.length_filter_le ..)) hspare

theorem receives_insert (hsound : c.Sound) (key : κ) (value : ν) :
    c.Receives key value (c.insert key value) where
  capacity := rfl
  spared hroom := List.take_of_length_le (hsound.length_moved_le hroom)
  evicted hnew hfull := by
    have hothers : c.entries.filter (·.1 ≠ key) = c.entries := by
      refine List.filter_eq_self.2 fun entry hentry => decide_eq_true fun hkey => ?_
      exact peek?_eq_none_iff.1 hnew (List.mem_map.2 ⟨entry, hentry, hkey⟩)
    obtain hempty | ⟨kept, last, hentries⟩ := List.eq_nil_or_concat c.entries
    · rw [hempty] at hfull
      exact absurd hfull (Nat.ne_of_lt hsound.room)
    · rw [List.concat_eq_append] at hentries
      refine ⟨kept, last, hentries, ?_⟩
      have hcapacity : c.capacity = kept.length + 1 := by rw [← hfull, hentries, List.length_append]; rfl
      change ((key, value) :: c.entries.filter (·.1 ≠ key)).take c.capacity = _
      rw [hothers, hcapacity, List.take_succ_cons, hentries, List.take_left]

theorem recalls_use (hsound : c.Sound) (hheld : c.peek? key = some value) :
    c.Recalls key value (c.use key).2 := by
  have huse : (c.use key).2 = c.insert key value := by simp only [use, hheld]
  have hreceives := hsound.receives_insert key value
  have hentries := hreceives.spared (.inl (by simp [hheld]))
  exact huse ▸ ⟨hreceives.capacity, hheld, hentries, hentries ▸ perm_moved hsound.nodup hheld⟩

theorem insert (hsound : c.Sound) (key : κ) (value : ν) : (c.insert key value).Sound where
  room := hsound.room
  fits := c.length_entries_insert_le key value
  nodup := (nodup_moved hsound.nodup key value).sublist ((List.take_sublist ..).map Prod.fst)

theorem afterUse (hsound : c.Sound) (used : Option (κ × ν)) : (c.afterUse used).Sound := by
  cases used with
  | none => exact hsound
  | some entry => exact hsound.insert entry.1 entry.2

end Sound

/-- A value is held under a key, and the entries used since then have distinct keys, all of them among some
    other ones. -/
def HeldBehind (c : RecencyCache κ ν) (key : κ) (value : ν) (others : Finset κ) : Prop :=
  ∃ newer older, c.entries = newer ++ (key, value) :: older ∧ (newer.map Prod.fst).Nodup ∧
    ∀ used ∈ newer.map Prod.fst, used ∈ others

namespace HeldBehind

variable {others : Finset κ}

theorem peek? (hheld : c.HeldBehind key value others) (hother : key ∉ others) :
    c.peek? key = some value := by
  obtain ⟨newer, older, hentries, -, hothers⟩ := hheld
  have hnone : newer.find? (·.1 = key) = none := by
    refine List.find?_eq_none.2 fun entry hentry hkey => hother ?_
    rw [← of_decide_eq_true hkey]
    exact hothers _ (List.mem_map_of_mem hentry)
  simp [RecencyCache.peek?, hentries, List.find?_append, hnone]

theorem insert_self (c : RecencyCache κ ν) (key : κ) (value : ν) (others : Finset κ)
    (hroom : 0 < c.capacity) : (c.insert key value).HeldBehind key value others := by
  obtain ⟨room, hcapacity⟩ := Nat.exists_eq_succ_of_ne_zero (Nat.ne_of_gt hroom)
  refine ⟨[], (c.entries.filter (·.1 ≠ key)).take room, ?_, .nil, nofun⟩
  simp [insert, hcapacity]

/-- The use of another key moves that key to the front. No more entries than the others come before the one
    held, so the cache has room for it too. -/
theorem insert_other (hheld : c.HeldBehind key value others) (hother : key ∉ others)
    (hroom : others.card < c.capacity) (hused : other ∈ others) :
    (c.insert other new).HeldBehind key value others := by
  obtain ⟨newer, older, hentries, hnodup, hothers⟩ := hheld
  have hne : key ≠ other := fun heq => hother (heq ▸ hused)
  let moved := (other, new) :: newer.filter (·.1 ≠ other)
  have hsublist : ((newer.filter (·.1 ≠ other)).map Prod.fst).Sublist (newer.map Prod.fst) :=
    List.filter_sublist.map Prod.fst
  have hmoved : (moved.map Prod.fst).Nodup := nodup_moved hnodup other new
  have hamong : ∀ used ∈ moved.map Prod.fst, used ∈ others :=
    List.forall_mem_cons.2 ⟨hused, fun used hmem => hothers used (hsublist.subset hmem)⟩
  have hlength : moved.length < c.capacity := by
    have hcard := Finset.card_le_card (s := (moved.map Prod.fst).toFinset) (t := others)
      fun used hmem => hamong used (List.mem_toFinset.1 hmem)
    rw [List.toFinset_card_of_nodup hmoved, List.length_map] at hcard
    exact Nat.lt_of_le_of_lt hcard hroom
  obtain ⟨room, hcapacity⟩ := Nat.exists_eq_add_of_lt hlength
  refine ⟨moved, (older.filter (·.1 ≠ other)).take room, ?_, hmoved, hamong⟩
  have hall : (other, new) :: c.entries.filter (·.1 ≠ other) =
      moved ++ (key, value) :: older.filter (·.1 ≠ other) := by
    rw [hentries, List.filter_append, List.filter_cons, if_pos (decide_eq_true hne)]
    rfl
  change ((other, new) :: c.entries.filter (·.1 ≠ other)).take c.capacity = _
  rw [hall, hcapacity, Nat.add_assoc, List.take_length_add_append, List.take_succ_cons]

end HeldBehind

end DhtStore.RecencyCache
