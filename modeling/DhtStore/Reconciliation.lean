import DhtStore.Item

namespace DhtStore

inductive Verdict (ρ : Type)
  /-- Nothing that follows can supersede the item. -/
  | resolved (item : Item)
  | reading (state : ρ)

/-- A reader of items with state `ρ`. -/
abbrev Reader (ρ : Type) := ρ → Item → Verdict ρ

/-- Keeps the mutable item with the highest sequence number, the latest of several; an immutable
    item ends the search. The state is the item kept so far. -/
def Reader.best : Reader (Option MutableItem)
  | _, .immutable value => .resolved (.immutable value)
  | none, .mutable item => .reading (some item)
  | some kept, .mutable item => .reading (some (if item.seq < kept.seq then kept else item))

/-- Keeps the highest sequence number of mutable items; immutable ones count for nothing. -/
def Reader.highestSeq : Reader Seq
  | highest, .immutable _ => .reading highest
  | highest, .mutable item => .reading (if highest < item.seq then item.seq else highest)

end DhtStore
