namespace DhtStore

/-- A cache of at most `capacity` entries, the most recently used first. -/
structure RecencyCache (κ ν : Type) where
  capacity : Nat
  entries : List (κ × ν) := []

namespace RecencyCache

variable {κ ν : Type} [DecidableEq κ]

def peek? (c : RecencyCache κ ν) (key : κ) : Option ν :=
  (c.entries.find? (·.1 = key)).map Prod.snd

/-- Holds a value under a key, as the entry used last. -/
def insert (c : RecencyCache κ ν) (key : κ) (value : ν) : RecencyCache κ ν :=
  { c with entries := ((key, value) :: c.entries.filter (·.1 ≠ key)).take c.capacity }

/-- An insertion leaves no more entries than the capacity allows. -/
theorem length_entries_insert_le (c : RecencyCache κ ν) (key : κ) (value : ν) :
    (c.insert key value).entries.length ≤ c.capacity :=
  List.length_take_le _ _

theorem peek?_insert_self (c : RecencyCache κ ν) (key : κ) (value : ν) (hroom : 0 < c.capacity) :
    (c.insert key value).peek? key = some value := by
  obtain ⟨room, hcapacity⟩ := Nat.exists_eq_succ_of_ne_zero (Nat.ne_of_gt hroom)
  simp [peek?, insert, hcapacity]

/-- The value held under a key, which is thereby used. -/
def use (c : RecencyCache κ ν) (key : κ) : Option ν × RecencyCache κ ν :=
  match c.peek? key with
  | none => (none, c)
  | some value => (some value, c.insert key value)

theorem fst_use (c : RecencyCache κ ν) (key : κ) : (c.use key).1 = c.peek? key := by
  unfold use
  split <;> simp_all

@[simp] theorem capacity_use (c : RecencyCache κ ν) (key : κ) : (c.use key).2.capacity = c.capacity := by
  unfold use
  split <;> rfl

/-- A cache that holds no more than it has room for. -/
def Fits (c : RecencyCache κ ν) : Prop := c.entries.length ≤ c.capacity

theorem Fits.use {c : RecencyCache κ ν} (hfits : c.Fits) (key : κ) : (c.use key).2.Fits := by
  unfold RecencyCache.use
  split
  · exact hfits
  · exact c.length_entries_insert_le ..

theorem find?_filter_of_ne {key other : κ} (hne : other ≠ key) (entries : List (κ × ν)) :
    (entries.filter (·.1 ≠ other)).find? (·.1 = key) = entries.find? (·.1 = key) := by
  rw [List.find?_filter]
  congr 1
  funext entry
  by_cases hentry : entry.1 = key <;> simp [hentry, hne.symm]

/-- What is held under other keys stays, as long as there is room for it. -/
theorem peek?_insert_of_ne {c : RecencyCache κ ν} {key other : κ} (hne : other ≠ key)
    (hroom : (c.entries.filter (·.1 ≠ key)).length < c.capacity) (value : ν) :
    (c.insert key value).peek? other = c.peek? other := by
  have hentries : (c.insert key value).entries = (key, value) :: c.entries.filter (·.1 ≠ key) :=
    List.take_of_length_le hroom
  simp only [peek?, hentries, List.find?_cons, decide_eq_false hne.symm, find?_filter_of_ne hne.symm]

/-- To look changes nothing of what a cache holds. -/
theorem peek?_use {c : RecencyCache κ ν} (hfits : c.Fits) (key other : κ) :
    (c.use key).2.peek? other = c.peek? other := by
  unfold RecencyCache.use
  cases hheld : c.peek? key with
  | none => rfl
  | some value =>
    obtain ⟨entry, hfound, -⟩ := Option.map_eq_some_iff.1 hheld
    have hkey : entry.1 = key := by simpa using List.find?_some hfound
    have hroom : (c.entries.filter (·.1 ≠ key)).length < c.capacity := by
      refine Nat.lt_of_lt_of_le (List.length_filter_lt_length_iff_exists.2 ?_) hfits
      exact ⟨entry, List.mem_of_find?_eq_some hfound, by simp [hkey]⟩
    by_cases hsame : other = key
    · subst hsame
      rw [hheld]
      exact c.peek?_insert_self other value (Nat.lt_of_le_of_lt (Nat.zero_le _) hroom)
    · exact peek?_insert_of_ne hsame hroom value

/-- A cache of which at most an entry was used. -/
theorem Fits.of_use {c after : RecencyCache κ ν} {key : κ} (hfits : c.Fits)
    (hafter : after = c ∨ after = (c.use key).2) : after.peek? = c.peek? ∧ after.Fits := by
  obtain rfl | rfl := hafter
  · exact ⟨rfl, hfits⟩
  · exact ⟨funext (peek?_use hfits key), hfits.use key⟩

/-- What is inserted under a key takes the place of what was inserted there before. -/
theorem insert_insert (c : RecencyCache κ ν) (key : κ) (old value : ν) :
    (c.insert key old).insert key value = c.insert key value := by
  obtain ⟨capacity, entries⟩ := c
  cases capacity with
  | zero => rfl
  | succ room =>
    have hothers : ((entries.filter (·.1 ≠ key)).take room).filter (·.1 ≠ key) =
        (entries.filter (·.1 ≠ key)).take room :=
      List.filter_eq_self.2 fun entry hentry => (List.mem_filter.1 (List.mem_of_mem_take hentry)).2
    simp only [insert, List.take_succ_cons, List.filter_cons, ne_eq, not_true_eq_false, decide_false,
      Bool.false_eq_true, if_false]
    simp only [ne_eq] at hothers
    rw [hothers, List.take_take, Nat.min_self]

theorem insert_use (c : RecencyCache κ ν) (key : κ) (value : ν) :
    (c.use key).2.insert key value = c.insert key value := by
  unfold use
  split
  · rfl
  · exact c.insert_insert ..

end RecencyCache

end DhtStore
