import DhtStore.Item.Json
import Mathlib.Data.Option.Basic

namespace DhtStore

namespace Json

theorem byte?_eq_some_iff {j : Json} {b : UInt8} : j.byte? = some b ↔ j = .integer b.toNat := by
  constructor
  · intro hbyte
    unfold byte? at hbyte
    split at hbyte
    · next n =>
      split at hbyte
      · next hrange =>
        cases hbyte
        have hvalue : (UInt8.ofNat n.toNat).toNat = n.toNat := by
          rw [UInt8.toNat_ofNat']
          omega
        rw [hvalue, Int.toNat_of_nonneg hrange.1]
      · cases hbyte
    · cases hbyte
  · rintro rfl
    have hb := b.toNat_lt
    rw [byte?, if_pos (by omega), Int.toNat_natCast, UInt8.ofNat_toNat]

/-- An array stands for a byte string in one way. -/
theorem byteArray?_eq_some_iff {j : Json} {bs : Bytes} : j.byteArray? = some bs ↔ j = .ofBytes bs := by
  have helements (elements : List Json) (bs : Bytes) :
      elements.mapM byte? = some bs ↔ elements = bs.map fun b => .integer b.toNat := by
    induction elements generalizing bs with
    | nil => cases bs <;> simp
    | cons element elements ih => cases bs <;> simp [List.mapM_cons, Option.bind_eq_some_iff, byte?_eq_some_iff, ih]
  cases j with
  | array elements => rw [byteArray?, helements, ofBytes, array.injEq]
  | _ => simp [byteArray?, ofBytes]

/-- The spellings of a byte string where a text may stand for it. -/
def IsByteString (j : Json) (bs : Bytes) : Prop := j = .ofBytes bs ∨ ∃ s, j = .text s ∧ Bytes.ofText s = bs

theorem byteString?_eq_some_iff {j : Json} {bs : Bytes} : j.byteString? = some bs ↔ j.IsByteString bs := by
  cases j with
  | text s => simp [byteString?, IsByteString, ofBytes]
  | _ => simp [byteString?, IsByteString, byteArray?_eq_some_iff]

theorem int64?_eq_some_iff {j : Json} {n : Int64} : j.int64? = some n ↔ j = .integer n.toInt := by
  cases j with
  | integer m =>
    rw [int64?, integer.injEq]
    constructor
    · intro hn
      split at hn
      · next hrange =>
        cases hn
        exact hrange.symm
      · cases hn
    · rintro rfl
      rw [Int64.ofInt_toInt, if_pos rfl]
  | _ => simp [int64?]

end Json

theorem NodeId.ofJson?_eq_some_iff {j : Json} {id : NodeId} :
    ofJson? j = some id ↔ j.IsByteString id.bytes := by
  simp [ofJson?, Option.bind_eq_some_iff, Json.byteString?_eq_some_iff, ofBytes?_eq_some_iff]

namespace MutableItem

/-- Values that stand for the parts of an item. -/
structure IsSpelledBy (item : MutableItem) (target key seq value signature salt : Json) : Prop where
  target : target.IsByteString item.target.bytes
  key : key = .ofBytes item.key.bytes
  seq : seq = .integer item.seq.toInt
  value : value = .ofBytes item.value
  signature : signature.IsByteString item.signature.bytes
  salt : salt = (item.salt.map Json.ofBytes).getD .null

theorem saltOfJson?_eq_some_iff {j : Json} {salt : Option Bytes} :
    saltOfJson? j = some salt ↔ j = (salt.map Json.ofBytes).getD .null := by
  cases salt with
  | none => cases j <;> simp [saltOfJson?]
  | some bs =>
    cases j with
    | null => simp [saltOfJson?, Json.ofBytes]
    | _ => simp [saltOfJson?, Json.byteArray?_eq_some_iff]

variable {item : MutableItem} {j target key seq value signature salt : Json}

theorem ofParts?_eq_some_iff :
    ofParts? target key seq value signature salt = some item ↔
      item.IsSpelledBy target key seq value signature salt := by
  simp only [ofParts?, Option.bind_eq_bind, Option.bind_eq_some_iff, Option.pure_def, Option.some_inj,
    NodeId.ofJson?_eq_some_iff, Json.byteArray?_eq_some_iff, Json.byteString?_eq_some_iff,
    Octets.ofBytes?_eq_some_iff, Json.int64?_eq_some_iff, saltOfJson?_eq_some_iff, exists_eq_right]
  constructor
  · rintro ⟨target, htarget, key, hkey, seq, hseq, value, hvalue, signature, hsignature, salt, hsalt, rfl⟩
    exact ⟨htarget, hkey, hseq, hvalue, hsignature, hsalt⟩
  · rintro ⟨htarget, hkey, hseq, hvalue, hsignature, hsalt⟩
    exact ⟨_, htarget, _, hkey, _, hseq, _, hvalue, _, hsignature, _, hsalt, rfl⟩

/-- The spellings of an item: an array of its parts, or an object with its parts as fields, among any
    others, where a missing salt is none. -/
def IsSpelling (item : MutableItem) (j : Json) : Prop :=
  ∃ target key seq value signature salt, item.IsSpelledBy target key seq value signature salt ∧
    (j = .array [target, key, seq, value, signature, salt] ∨
      ∃ fields, j = .object fields ∧ Json.field? "target" fields = some target ∧
        Json.field? "key" fields = some key ∧ Json.field? "seq" fields = some seq ∧
        Json.field? "value" fields = some value ∧ Json.field? "signature" fields = some signature ∧
        (Json.field? "salt" fields).getD .null = salt)

theorem ofJson?_eq_some_iff : ofJson? j = some item ↔ item.IsSpelling j := by
  constructor
  · intro hitem
    unfold ofJson? at hitem
    split at hitem
    · exact ⟨_, _, _, _, _, _, ofParts?_eq_some_iff.1 hitem, .inl rfl⟩
    · next fields =>
      simp only [Option.bind_eq_bind, Option.bind_eq_some_iff, ofParts?_eq_some_iff] at hitem
      obtain ⟨target, htarget, key, hkey, seq, hseq, value, hvalue, signature, hsignature, hspelled⟩ := hitem
      exact ⟨target, key, seq, value, signature, _, hspelled,
        .inr ⟨fields, rfl, htarget, hkey, hseq, hvalue, hsignature, rfl⟩⟩
    · cases hitem
  · rintro ⟨target, key, seq, value, signature, salt, hspelled, rfl | ⟨fields, rfl, hfields⟩⟩
    · exact ofParts?_eq_some_iff.2 hspelled
    · obtain ⟨htarget, hkey, hseq, hvalue, hsignature, rfl⟩ := hfields
      simp only [ofJson?, htarget, hkey, hseq, hvalue, hsignature, Option.bind_eq_bind, Option.bind_some]
      exact ofParts?_eq_some_iff.2 hspelled

/-- An item is written as an object of its six parts. -/
theorem isSpelling_toJson (item : MutableItem) : item.IsSpelling item.toJson := by
  refine ⟨_, _, _, _, _, _, ⟨.inl rfl, rfl, rfl, rfl, .inl rfl, rfl⟩, .inr ⟨_, rfl, rfl, rfl, rfl, rfl, rfl, ?_⟩⟩
  cases item.salt <;> rfl

end MutableItem

namespace Item

/-- The spellings of an item: an object whose one field is named for the kind of the item. -/
def IsSpelling (item : Item) (j : Json) : Prop :=
  match item with
  | immutable value => ∃ part, j = .object [("Immutable", part)] ∧ part.IsByteString value
  | mutable item => ∃ part, j = .object [("Mutable", part)] ∧ item.IsSpelling part

theorem ofJson?_eq_some_iff {j : Json} {item : Item} : ofJson? j = some item ↔ item.IsSpelling j := by
  constructor
  · intro hitem
    unfold ofJson? at hitem
    split at hitem
    · next kind part =>
      split at hitem
      · next hkind =>
        obtain ⟨value, hvalue, rfl⟩ := Option.map_eq_some_iff.1 hitem
        exact ⟨part, by rw [hkind], Json.byteString?_eq_some_iff.1 hvalue⟩
      · split at hitem
        · next hkind =>
          obtain ⟨item, hpart, rfl⟩ := Option.map_eq_some_iff.1 hitem
          exact ⟨part, by rw [hkind], MutableItem.ofJson?_eq_some_iff.1 hpart⟩
        · cases hitem
    · cases hitem
  · intro hspelling
    cases item with
    | immutable value =>
      obtain ⟨part, rfl, hpart⟩ := hspelling
      exact Option.map_eq_some_iff.2 ⟨value, Json.byteString?_eq_some_iff.2 hpart, rfl⟩
    | mutable item =>
      obtain ⟨part, rfl, hpart⟩ := hspelling
      exact Option.map_eq_some_iff.2 ⟨item, MutableItem.ofJson?_eq_some_iff.2 hpart, rfl⟩

theorem isSpelling_toJson (item : Item) : item.IsSpelling item.toJson := by
  cases item with
  | immutable value => exact ⟨_, rfl, .inl rfl⟩
  | mutable item => exact ⟨_, rfl, item.isSpelling_toJson⟩

end Item

/-- Reading a value that was read before and written since makes no difference if writing is read back. -/
theorem bind_written_eq_self {α : Type} {read : Json → Option α} {write : α → Json}
    (hback : ∀ a, read (write a) = some a) (j : Json) : (read j).bind (fun a => read (write a)) = read j := by
  cases read j with
  | none => rfl
  | some a => exact hback a

/-- Exactly the spellings of ids and items are read, and what is written is read back. So whatever is read,
    from whichever spelling, is the same once it was written and read again. -/
theorem written_is_read_back :
    (∀ id : NodeId, NodeId.ofJson? id.toJson = some id) ∧
    (∀ item : MutableItem, MutableItem.ofJson? item.toJson = some item) ∧
    (∀ item : Item, Item.ofJson? item.toJson = some item) ∧
    (∀ j id, NodeId.ofJson? j = some id ↔ j.IsByteString id.bytes) ∧
    (∀ j item, MutableItem.ofJson? j = some item ↔ item.IsSpelling j) ∧
    (∀ j item, Item.ofJson? j = some item ↔ item.IsSpelling j) ∧
    (∀ j, (NodeId.ofJson? j).bind (fun id => NodeId.ofJson? id.toJson) = NodeId.ofJson? j) ∧
    (∀ j, (MutableItem.ofJson? j).bind (fun item => MutableItem.ofJson? item.toJson) = MutableItem.ofJson? j) ∧
    ∀ j, (Item.ofJson? j).bind (fun item => Item.ofJson? item.toJson) = Item.ofJson? j := by
  have hid (id : NodeId) : NodeId.ofJson? id.toJson = some id := NodeId.ofJson?_eq_some_iff.2 (.inl rfl)
  have hmutable (item : MutableItem) : MutableItem.ofJson? item.toJson = some item :=
    MutableItem.ofJson?_eq_some_iff.2 item.isSpelling_toJson
  have hitem (item : Item) : Item.ofJson? item.toJson = some item :=
    Item.ofJson?_eq_some_iff.2 item.isSpelling_toJson
  exact ⟨hid, hmutable, hitem, fun _ _ => NodeId.ofJson?_eq_some_iff,
    fun _ _ => MutableItem.ofJson?_eq_some_iff, fun _ _ => Item.ofJson?_eq_some_iff,
    bind_written_eq_self hid, bind_written_eq_self hmutable, bind_written_eq_self hitem⟩

end DhtStore
