import DhtStore.Proofs.Reconciliation
import Mathlib.Data.List.Perm.Basic

namespace DhtStore

/-- The same verdict on a reader that keeps something else. -/
def Verdict.map {ρ τ : Type} (f : ρ → τ) : Verdict ρ → Verdict τ
  | .resolved item => .resolved item
  | .reading state => .reading (f state)

namespace Reader

/-- The item that a search for the best one comes to if no others follow; none if it read none. -/
def reconcile (items : List Item) : Option Item :=
  match readAll best none items with
  | .resolved item => some item
  | .reading kept => kept.map .mutable

namespace LatestHighest

variable {items : List Item} {item other : MutableItem}

/-- There is one such item at most. -/
theorem unique (hlatest : LatestHighest items item) (hother : LatestHighest items other) : item = other := by
  have hseq : item.seq = other.seq := Int64.le_antisymm (hother.le hlatest.mem) (hlatest.le hother.mem)
  obtain ⟨earlier, later, hitems, -, hlater⟩ := hlatest
  obtain ⟨before, after, hsame, -, hafter⟩ := hother
  -- If the two stood at different places, the one that comes first would have the lower number.
  have habsurd {first second : MutableItem} (heq : first.seq = second.seq) {rest : List Item}
      (hrest : ∀ third, .mutable third ∈ rest → third.seq < first.seq) : .mutable second ∉ rest := by
    intro hmem
    have hlt := hrest second hmem
    rw [heq] at hlt
    exact Int64.lt_irrefl hlt
  rw [hitems] at hsame
  obtain ⟨between, -, hbetween⟩ | ⟨between, -, hbetween⟩ := List.append_eq_append_iff.1 hsame
  · cases between with
    | nil =>
      cases hbetween
      rfl
    | cons head tail =>
      cases hbetween
      exact absurd (List.mem_append_right _ (List.mem_cons_self ..)) (habsurd hseq hlater)
  · cases between with
    | nil =>
      cases hbetween
      rfl
    | cons head tail =>
      cases hbetween
      exact absurd (List.mem_append_right _ (List.mem_cons_self ..)) (habsurd hseq.symm hafter)

/-- In another order another item may be the last with the highest number, but the number is the same. -/
theorem seq_eq_of_perm {others : List Item} (hlatest : LatestHighest items item)
    (hother : LatestHighest others other) (hperm : items.Perm others) : other.seq = item.seq :=
  Int64.le_antisymm (hlatest.le (hperm.mem_iff.2 hother.mem)) (hother.le (hperm.mem_iff.1 hlatest.mem))

theorem eq_of_only (hlatest : LatestHighest items item)
    (honly : (items.filter (·.seq? = some item.seq)).length = 1) (hother : .mutable other ∈ items)
    (hseq : other.seq = item.seq) : other = item := by
  obtain ⟨single, hsingle⟩ := List.length_eq_one_iff.1 honly
  have hone {candidate : MutableItem} (hcandidate : .mutable candidate ∈ items)
      (hsame : candidate.seq = item.seq) : .mutable candidate = single := by
    refine List.mem_singleton.1 (hsingle ▸ List.mem_filter.2 ⟨hcandidate, ?_⟩)
    simpa [Item.seq?] using hsame
  exact Item.mutable.inj ((hone hother hseq).trans (hone hlatest.mem rfl).symm)

end LatestHighest

section

variable {items : List Item}

theorem reconcile_of_immutable {earlier later : List Item} {value : Bytes}
    (hmutable : ∀ item ∈ earlier, item.isMutable = true) :
    reconcile (earlier ++ .immutable value :: later) = some (.immutable value) := by
  rw [reconcile, (readAll_best_of_immutable hmutable).1]

/-- Mutable items alone come to one of them. -/
theorem exists_latest_of_mutable (hmutable : ∀ item ∈ items, item.isMutable = true)
    (hsome : items ≠ []) :
    ∃ item, reconcile items = some (.mutable item) ∧ LatestHighest items item := by
  obtain ⟨kept, hread, -, hempty, hlatest⟩ := readAll_best_of_mutable hmutable
  rw [reconcile, hread]
  cases kept with
  | none => exact absurd (hempty.1 rfl) hsome
  | some item => exact ⟨item, rfl, hlatest item rfl⟩

theorem reconcile_eq_none_iff : reconcile items = none ↔ items = [] := by
  constructor
  · intro hnone
    by_contra hsome
    obtain hmutable | ⟨earlier, value, later, rfl, hmutable⟩ := all_mutable_or_first_immutable items
    · obtain ⟨item, hitem, -⟩ := exists_latest_of_mutable hmutable hsome
      cases hnone.symm.trans hitem
    · cases hnone.symm.trans (reconcile_of_immutable hmutable)
  · rintro rfl
    rfl

theorem reconcile_eq_mutable_iff (hmutable : ∀ item ∈ items, item.isMutable = true) {item : MutableItem} :
    reconcile items = some (.mutable item) ↔ LatestHighest items item := by
  constructor
  · intro hitem
    have hsome : items ≠ [] := by
      rintro rfl
      cases hitem
    obtain ⟨found, hfound, hlatest⟩ := exists_latest_of_mutable hmutable hsome
    cases hitem.symm.trans hfound
    exact hlatest
  · intro hlatest
    obtain ⟨found, hfound, hother⟩ := exists_latest_of_mutable hmutable (List.ne_nil_of_mem hlatest.mem)
    rw [hfound, hother.unique hlatest]

theorem filter_immutable_eq_nil (hmutable : ∀ item ∈ items, item.isMutable = true) :
    items.filter (!·.isMutable) = [] := by
  refine List.filter_eq_nil_iff.2 fun item hitem => ?_
  simp [hmutable item hitem]

/-- Items with the immutable ones in the same order come to results with the same number, however the
    mutable ones are placed; and to the same result, unless two or more mutable items share that number. -/
theorem reconcile_of_reordered {others : List Item} (hperm : items.Perm others)
    (hkept : items.filter (!·.isMutable) = others.filter (!·.isMutable)) :
    (reconcile items = none ↔ reconcile others = none) ∧
      ∀ found, reconcile items = some found → ∃ other, reconcile others = some other ∧
        other.seq? = found.seq? ∧
        (found.isMutable = false ∨ (items.filter (·.seq? = found.seq?)).length = 1 → other = found) := by
  constructor
  · rw [reconcile_eq_none_iff, reconcile_eq_none_iff]
    exact ⟨fun hitems => (hitems ▸ hperm).nil_eq.symm, fun hothers => (hothers ▸ hperm).eq_nil⟩
  intro found hfound
  obtain hitems | ⟨earlier, value, later, rfl, hearlier⟩ := all_mutable_or_first_immutable items
  · have hothers : ∀ item ∈ others, item.isMutable = true :=
      fun item hitem => hitems item (hperm.mem_iff.2 hitem)
    have hsome : items ≠ [] := by
      rintro rfl
      cases hfound
    obtain ⟨item, hitem, hlatest⟩ := exists_latest_of_mutable hitems hsome
    cases hfound.symm.trans hitem
    obtain ⟨other, hother, hlatestOther⟩ :=
      exists_latest_of_mutable hothers fun hnone => hsome (hnone ▸ hperm).eq_nil
    have hseq := hlatest.seq_eq_of_perm hlatestOther hperm
    refine ⟨.mutable other, hother, congrArg some hseq, ?_⟩
    rintro (himmutable | honly)
    · cases himmutable
    · rw [hlatest.eq_of_only honly (hperm.mem_iff.2 hlatestOther.mem) hseq]
  · cases hfound.symm.trans (reconcile_of_immutable hearlier)
    have hfirst : others.filter (!·.isMutable) = .immutable value :: later.filter (!·.isMutable) := by
      rw [← hkept, List.filter_append, filter_immutable_eq_nil hearlier]
      rfl
    obtain hothers | ⟨before, first, after, rfl, hbefore⟩ := all_mutable_or_first_immutable others
    · cases (filter_immutable_eq_nil hothers).symm.trans hfirst
    · rw [List.filter_append, filter_immutable_eq_nil hbefore, List.nil_append,
        List.filter_cons_of_pos rfl] at hfirst
      obtain rfl := Item.immutable.inj (List.head_eq_of_cons_eq hfirst)
      exact ⟨_, reconcile_of_immutable hbefore, rfl, fun _ => rfl⟩

end

section

variable {items : List Item} {seq : Seq}

/-- The sequence number of the item that mutable items come to, whatever immutable ones come among them. -/
def current? (items : List Item) : Option Seq := (reconcile (items.filter (·.isMutable))).bind Item.seq?

theorem mem_filterMap_seq?_iff :
    seq ∈ items.filterMap Item.seq? ↔ ∃ item, .mutable item ∈ items ∧ item.seq = seq := by
  rw [List.mem_filterMap]
  constructor
  · rintro ⟨item, hitem, hseq⟩
    cases item with
    | immutable value => cases hseq
    | mutable item => exact ⟨item, hitem, Option.some_inj.1 hseq⟩
  · rintro ⟨item, hitem, rfl⟩
    exact ⟨.mutable item, hitem, rfl⟩

/-- Mutable items come to one with the highest number of them. -/
theorem current?_cases (items : List Item) :
    ((∀ item ∈ items, item.isMutable = false) ∧ current? items = none) ∨
      ∃ item, .mutable item ∈ items ∧ (∀ other, .mutable other ∈ items → other.seq ≤ item.seq) ∧
        current? items = some item.seq := by
  have hmutable : ∀ item ∈ items.filter (·.isMutable), item.isMutable = true :=
    fun item hitem => (List.mem_filter.1 hitem).2
  by_cases hnone : items.filter (·.isMutable) = []
  · refine .inl ⟨fun item hitem => ?_, by rw [current?, hnone]; rfl⟩
    simpa using List.filter_eq_nil_iff.1 hnone item hitem
  · obtain ⟨item, hitem, hlatest⟩ := exists_latest_of_mutable hmutable hnone
    refine .inr ⟨item, (List.mem_filter.1 hlatest.mem).1, fun other hother => ?_, by rw [current?, hitem]; rfl⟩
    exact hlatest.le (List.mem_filter.2 ⟨hother, rfl⟩)

theorem current?_eq_none_iff : current? items = none ↔ ∀ item ∈ items, item.isMutable = false := by
  obtain ⟨hnone, hcurrent⟩ | ⟨item, hitem, -, hcurrent⟩ := current?_cases items
  · exact ⟨fun _ => hnone, fun _ => hcurrent⟩
  · rw [hcurrent]
    exact ⟨nofun, fun hnone => nomatch hnone _ hitem⟩

/-- A search for the highest number comes to the current one, or to the one it starts from if that is higher or
    there is no other. -/
theorem readAll_highestSeq_eq (items : List Item) (first : Seq) :
    readAll highestSeq first items = .reading ((current? items).elim first (max first)) := by
  rw [readAll_highestSeq, Verdict.reading.injEq]
  obtain ⟨hone, hfirst, hrest⟩ := Seq.foldl_max_spec (items.filterMap Item.seq?) first
  obtain ⟨hnone, hcurrent⟩ | ⟨item, hitem, hhighest, hcurrent⟩ := current?_cases items
  · rw [hcurrent]
    obtain hstart | hmem := hone
    · exact hstart
    · obtain ⟨item, hitem, -⟩ := mem_filterMap_seq?_iff.1 hmem
      cases hnone _ hitem
  · rw [hcurrent]
    have hitemLe := hrest _ (mem_filterMap_seq?_iff.2 ⟨item, hitem, rfl⟩)
    have hleast {bound : Seq} (hfirstLe : first ≤ bound) (hitemBound : item.seq ≤ bound) :
        (items.filterMap Item.seq?).foldl max first ≤ bound := by
      obtain hstart | hmem := hone
      · rw [hstart]
        exact hfirstLe
      · obtain ⟨other, hother, hseq⟩ := mem_filterMap_seq?_iff.1 hmem
        rw [← hseq]
        exact Int64.le_trans (hhighest other hother) hitemBound
    obtain ⟨hle, hmax⟩ | ⟨hle, hmax⟩ := Seq.max_cases first item.seq
    · rw [Option.elim_some, hmax]
      exact Int64.le_antisymm (hleast (Int64.le_refl _) hle) hfirst
    · rw [Option.elim_some, hmax]
      exact Int64.le_antisymm (hleast hle (Int64.le_refl _)) hitemLe

end

/-- The best item together with its sequence number. As long as there is no item the number means
    nothing. -/
structure Tracked where
  item : Option MutableItem
  seq : Seq

/-- Keeps the best item, and compares with the number that is kept beside it. -/
def tracked : Reader Tracked
  | _, .immutable value => .resolved (.immutable value)
  | ⟨none, _⟩, .mutable item => .reading ⟨some item, item.seq⟩
  | ⟨some kept, seq⟩, .mutable item =>
    .reading (if item.seq < seq then ⟨some kept, seq⟩ else ⟨some item, item.seq⟩)

def Tracked.ofKept (first : Seq) (kept : Option MutableItem) : Tracked :=
  ⟨kept, kept.elim first MutableItem.seq⟩

/-- The number stays in step with the item, so that the search goes the same way with it as without,
    whatever number it starts with. -/
theorem readAll_tracked (items : List Item) (first : Seq) (kept : Option MutableItem) :
    readAll tracked (.ofKept first kept) items = (readAll best kept items).map (.ofKept first) := by
  induction items generalizing kept with
  | nil => rfl
  | cons item items ih =>
    cases item with
    | immutable value => cases kept <;> rfl
    | mutable item =>
      cases kept with
      | none => exact ih (some item)
      | some held =>
        have hheld := ih (some held)
        have hitem := ih (some item)
        by_cases hlower : item.seq < held.seq
        · simpa [readAll, tracked, best, hlower, Tracked.ofKept] using hheld
        · simpa [readAll, tracked, best, hlower, Tracked.ofKept] using hitem

end Reader

end DhtStore
