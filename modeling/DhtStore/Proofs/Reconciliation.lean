import DhtStore.Reconciliation
import Mathlib.Data.List.Induction

namespace DhtStore

namespace Seq

theorem max_cases (a b : Seq) : b ≤ a ∧ max a b = a ∨ a ≤ b ∧ max a b = b := by
  change b ≤ a ∧ (if a ≤ b then b else a) = a ∨ a ≤ b ∧ (if a ≤ b then b else a) = b
  by_cases hle : a ≤ b
  · exact .inr ⟨hle, if_pos hle⟩
  · exact .inl ⟨Int64.le_of_lt (Int64.not_le.1 hle), if_neg hle⟩

/-- The highest of a first number and further ones is one of them, and none of them exceeds it. -/
theorem foldl_max_spec (seqs : List Seq) (first : Seq) :
    let highest := seqs.foldl max first
    (highest = first ∨ highest ∈ seqs) ∧ first ≤ highest ∧ ∀ seq ∈ seqs, seq ≤ highest := by
  induction seqs generalizing first with
  | nil => exact ⟨.inl rfl, Int64.le_refl first, nofun⟩
  | cons seq seqs ih =>
    obtain ⟨hone, hfirst, hrest⟩ := ih (max first seq)
    rw [List.foldl_cons]
    obtain ⟨hle, hmax⟩ | ⟨hle, hmax⟩ := max_cases first seq
    · rw [hmax] at hone hfirst ⊢
      exact ⟨hone.imp_right (List.mem_cons_of_mem _), hfirst,
        List.forall_mem_cons.2 ⟨Int64.le_trans hle hfirst, hmax ▸ hrest⟩⟩
    · rw [hmax] at hone hfirst ⊢
      exact ⟨.inr (List.mem_cons.2 hone), Int64.le_trans hle hfirst,
        List.forall_mem_cons.2 ⟨hfirst, hmax ▸ hrest⟩⟩

/-- Neither their order nor how often they occur decides which of some numbers is the highest. -/
theorem foldl_max_congr {seqs others : List Seq} (hsame : ∀ seq, seq ∈ seqs ↔ seq ∈ others) (first : Seq) :
    seqs.foldl max first = others.foldl max first := by
  have hle {xs ys : List Seq} (hsubset : xs ⊆ ys) : xs.foldl max first ≤ ys.foldl max first := by
    obtain ⟨hone, -, -⟩ := foldl_max_spec xs first
    obtain ⟨-, hfirst, hrest⟩ := foldl_max_spec ys first
    obtain heq | hmem := hone
    · rw [heq]
      exact hfirst
    · exact hrest _ (hsubset hmem)
  exact Int64.le_antisymm (hle fun seq => (hsame seq).1) (hle fun seq => (hsame seq).2)

end Seq

namespace Reader

variable {ρ : Type} {read : Reader ρ} {state : ρ}

/-- Reads items in turn until one resolves the search. -/
def readAll (read : Reader ρ) : ρ → List Item → Verdict ρ
  | state, [] => .reading state
  | state, item :: items =>
    match read state item with
    | .resolved found => .resolved found
    | .reading next => readAll read next items

@[simp] theorem readAll_nil : readAll read state [] = .reading state := rfl

/-- The items that are left unread once one of them resolves the search. -/
def unread (read : Reader ρ) : ρ → List Item → List Item
  | _, [] => []
  | state, item :: items =>
    match read state item with
    | .resolved _ => items
    | .reading next => unread read next items

/-- What follows is read in the state in which the items before it leave the reader. -/
theorem readAll_append {items : List Item} {next : ρ} (hread : readAll read state items = .reading next)
    (later : List Item) :
    readAll read state (items ++ later) = readAll read next later ∧
      unread read state (items ++ later) = unread read next later := by
  induction items generalizing state with
  | nil =>
    cases hread
    exact ⟨rfl, rfl⟩
  | cons item items ih =>
    simp only [readAll, unread, List.cons_append] at hread ⊢
    cases hverdict : read state item with
    | resolved found =>
      rw [hverdict] at hread
      cases hread
    | reading after =>
      rw [hverdict] at hread
      exact ih hread

/-- What was read before decides nothing about the next item but the state it is read in. -/
theorem readAll_concat {items : List Item} {next : ρ} (hread : readAll read state items = .reading next)
    (item : Item) : readAll read state (items ++ [item]) = read next item := by
  rw [(readAll_append hread [item]).1]
  simp only [readAll]
  split
  · next hverdict => exact hverdict.symm
  · next hverdict => exact hverdict.symm

/-- A mutable item with the highest sequence number among some items, the last of those that have it. -/
def LatestHighest (items : List Item) (item : MutableItem) : Prop :=
  ∃ earlier later, items = earlier ++ .mutable item :: later ∧
    (∀ other, .mutable other ∈ earlier → other.seq ≤ item.seq) ∧
    ∀ other, .mutable other ∈ later → other.seq < item.seq

namespace LatestHighest

variable {items : List Item} {item other : MutableItem}

theorem mem (hlatest : LatestHighest items item) : .mutable item ∈ items := by
  obtain ⟨earlier, later, rfl, -, -⟩ := hlatest
  exact List.mem_append_right _ (List.mem_cons_self ..)

theorem le (hlatest : LatestHighest items item) (hother : .mutable other ∈ items) :
    other.seq ≤ item.seq := by
  obtain ⟨earlier, later, rfl, hearlier, hlater⟩ := hlatest
  obtain hmem | hmem := List.mem_append.1 hother
  · exact hearlier other hmem
  · obtain hsame | hmem := List.mem_cons.1 hmem
    · cases hsame
      exact Int64.le_refl _
    · exact Int64.le_of_lt (hlater other hmem)

theorem concat_self (newest : MutableItem)
    (hle : ∀ other, .mutable other ∈ items → other.seq ≤ newest.seq) :
    LatestHighest (items ++ [.mutable newest]) newest :=
  ⟨items, [], rfl, hle, nofun⟩

theorem concat_lower (hlatest : LatestHighest items item) {newest : MutableItem}
    (hlower : newest.seq < item.seq) : LatestHighest (items ++ [.mutable newest]) item := by
  obtain ⟨earlier, later, rfl, hearlier, hlater⟩ := hlatest
  refine ⟨earlier, later ++ [.mutable newest], by simp, hearlier, fun other hother => ?_⟩
  obtain hmem | hmem := List.mem_append.1 hother
  · exact hlater other hmem
  · cases List.mem_singleton.1 hmem
    exact hlower

end LatestHighest

/-- Of mutable items all are read, and the last of those with the highest number is kept. -/
theorem readAll_best_of_mutable {items : List Item} (hmutable : ∀ item ∈ items, item.isMutable = true) :
    ∃ kept, readAll best none items = .reading kept ∧ unread best none items = [] ∧
      (kept = none ↔ items = []) ∧ ∀ item, kept = some item → LatestHighest items item := by
  induction items using List.reverseRecOn with
  | nil => exact ⟨none, rfl, rfl, by simp, nofun⟩
  | append_singleton earlier last ih =>
    obtain ⟨hearlier, hlast⟩ := List.forall_mem_append.1 hmutable
    obtain ⟨held, hread, -, hnone, hlatest⟩ := ih hearlier
    obtain ⟨hall, hunread⟩ := readAll_append hread [last]
    rw [hall, hunread]
    cases last with
    | immutable value => cases hlast _ (List.mem_singleton_self _)
    | mutable newest =>
      cases held with
      | none =>
        refine ⟨some newest, rfl, rfl, by simp, fun item hkept => ?_⟩
        cases hkept
        obtain rfl := hnone.1 rfl
        exact .concat_self newest nofun
      | some highest =>
        have hhighest := hlatest highest rfl
        refine ⟨some (if newest.seq < highest.seq then highest else newest), rfl, rfl, by simp, ?_⟩
        intro item hkept
        cases hkept
        by_cases hlower : newest.seq < highest.seq
        · rw [if_pos hlower]
          exact hhighest.concat_lower hlower
        · rw [if_neg hlower]
          exact .concat_self newest fun other hother =>
            Int64.le_trans (hhighest.le hother) (Int64.not_lt.1 hlower)

/-- The first immutable item resolves the search, whatever came before, and what comes after it is left. -/
theorem readAll_best_of_immutable {earlier later : List Item} {value : Bytes}
    (hmutable : ∀ item ∈ earlier, item.isMutable = true) :
    readAll best none (earlier ++ .immutable value :: later) = .resolved (.immutable value) ∧
      unread best none (earlier ++ .immutable value :: later) = later := by
  obtain ⟨kept, hread, -⟩ := readAll_best_of_mutable hmutable
  obtain ⟨hall, hunread⟩ := readAll_append hread (.immutable value :: later)
  rw [hall, hunread]
  cases kept <;> exact ⟨rfl, rfl⟩

/-- Items are all mutable, or there is a first one that is not. -/
theorem all_mutable_or_first_immutable (items : List Item) :
    (∀ item ∈ items, item.isMutable = true) ∨
      ∃ earlier value later, items = earlier ++ .immutable value :: later ∧
        ∀ item ∈ earlier, item.isMutable = true := by
  induction items with
  | nil => exact .inl nofun
  | cons item items ih =>
    cases item with
    | immutable value => exact .inr ⟨[], value, items, rfl, nofun⟩
    | mutable item =>
      obtain hmutable | ⟨earlier, value, later, rfl, hmutable⟩ := ih
      · exact .inl (List.forall_mem_cons.2 ⟨rfl, hmutable⟩)
      · exact .inr ⟨.mutable item :: earlier, value, later, rfl, List.forall_mem_cons.2 ⟨rfl, hmutable⟩⟩

/-- A search that keeps the best item and was not resolved has read mutable items only, and what it
    keeps is one of those with the highest sequence number. -/
theorem best_of_reading {items : List Item} {kept : Option MutableItem}
    (hread : readAll best none items = .reading kept) :
    (∀ item ∈ items, item.isMutable = true) ∧ (kept = none ↔ items = []) ∧
      ∀ item, kept = some item →
        .mutable item ∈ items ∧ ∀ other, .mutable other ∈ items → other.seq ≤ item.seq := by
  have hmutable : ∀ item ∈ items, item.isMutable = true := by
    obtain hmutable | ⟨earlier, value, later, rfl, hmutable⟩ := all_mutable_or_first_immutable items
    · exact hmutable
    · cases hread.symm.trans (readAll_best_of_immutable hmutable).1
  obtain ⟨found, hfound, -, hnone, hlatest⟩ := readAll_best_of_mutable hmutable
  cases hread.symm.trans hfound
  refine ⟨hmutable, hnone, fun item hkept => ?_⟩
  exact ⟨(hlatest item hkept).mem, fun other => (hlatest item hkept).le⟩

theorem eq_of_best_resolved {kept : Option MutableItem} {item found : Item}
    (hread : best kept item = .resolved found) : found = item ∧ item.isMutable = false := by
  cases item with
  | immutable value =>
    cases kept <;> cases hread <;> exact ⟨rfl, rfl⟩
  | mutable held => cases kept <;> cases hread

/-- A search for the highest sequence number is never resolved, and keeps the highest of those read. -/
theorem readAll_highestSeq (items : List Item) (first : Seq) :
    readAll highestSeq first items = .reading ((items.filterMap Item.seq?).foldl max first) := by
  induction items generalizing first with
  | nil => rfl
  | cons item items ih =>
    cases item with
    | immutable value => exact ih first
    | mutable item =>
      have hmax : (if first < item.seq then item.seq else first) = max first item.seq := by
        obtain ⟨hle, hmax⟩ | ⟨hle, hmax⟩ := Seq.max_cases first item.seq
        · rw [hmax, if_neg (Int64.not_lt.2 hle)]
        · rw [hmax]
          split
          · rfl
          · next hnot => exact Int64.le_antisymm hle (Int64.not_lt.1 hnot)
      simp only [readAll, highestSeq, hmax, ih]
      rfl

/-- The highest sequence number read is no less than that of any mutable item, nor than the number
    started from. -/
theorem le_highestSeq_of_reading {items : List Item} {first last : Seq}
    (hread : readAll highestSeq first items = .reading last) :
    first ≤ last ∧ ∀ item, .mutable item ∈ items → item.seq ≤ last := by
  rw [readAll_highestSeq] at hread
  cases hread
  obtain ⟨-, hfirst, hrest⟩ := Seq.foldl_max_spec (items.filterMap Item.seq?) first
  exact ⟨hfirst, fun item hitem => hrest _ (List.mem_filterMap.2 ⟨_, hitem, rfl⟩)⟩

end Reader

end DhtStore
