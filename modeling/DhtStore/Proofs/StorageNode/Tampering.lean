import DhtStore.Proofs.Testnet.StorageNode

namespace DhtStore

theorem Seq.plus_eq_self_iff {seq : Seq} {n : Int} (hn : 0 < n) : seq.plus n = seq ↔ seq = Int64.maxValue := by
  have hlow : Int64.minValue.toInt ≤ seq.toInt + n := by
    have := seq.le_toInt
    rw [Int64.toInt_minValue]
    omega
  by_cases hroom : seq.toInt + n ≤ Int64.maxValue.toInt
  · have hplus : (seq.plus n).toInt = seq.toInt + n := Int64.toInt_ofIntClamp hlow hroom
    constructor
    · intro hsame
      rw [hsame] at hplus
      omega
    · rintro rfl
      omega
  · have hplus : seq.plus n = Int64.maxValue := by
      rw [Seq.plus, Int64.ofIntClamp, dif_pos hlow, dif_neg hroom]
    rw [hplus]
    exact eq_comm

theorem GetReply.Carries.value_eq {reply : GetReply} {item : Item} (hcarries : reply.Carries item) :
    reply.value = some item.value := by
  cases item with
  | immutable value => exact hcarries
  | mutable item => exact hcarries.1

namespace StorageNode

theorem invertLast_eq_nil_iff {bs : Bytes} : invertLast bs = [] ↔ bs = [] := by
  fun_cases invertLast bs <;> simp

/-- Only bytes that are not there stay as they are. -/
theorem invertLast_eq_self_iff {bs : Bytes} : invertLast bs = bs ↔ bs = [] := by
  fun_induction invertLast bs with
  | case1 => simp
  | case2 b =>
    have hinverted : b ^^^ 0xFF ≠ b := fun hsame =>
      absurd ((UInt8.xor_right_inj b).1 (hsame.trans UInt8.xor_zero.symm)) (by decide)
    simp [hinverted]
  | case3 b bs hne ih => simpa [ih] using hne

variable {n : StorageNode} {reply : GetReply} {target : NodeId} {salt : Option Bytes} {item : Item}

/-- After tampering, a reply has the value that it had before exactly if this is empty. -/
theorem value_eq_iff_of_tamper {value : Bytes} (hvalue : (tamper reply).value = some value) :
    reply.value = some value ↔ value = [] := by
  have hinverted := Option.some_inj.1 hvalue
  constructor
  · intro hsame
    rw [hsame] at hinverted
    exact invertLast_eq_self_iff.1 hinverted
  · rintro rfl
    have hempty := invertLast_eq_nil_iff.1 hinverted
    -- The text that is made up where there is no value is not empty.
    cases hbefore : reply.value with
    | none =>
      rw [hbefore] at hempty
      cases hempty
    | some value =>
      rw [hbefore] at hempty
      exact congrArg some hempty

/-- What is found in a reply is still found there after tampering exactly if that changes nothing of it: its value is
    empty, and its sequence number, if it has one, is the last one. -/
theorem item?_classify_tamper_iff (hfound : (reply.classify target salt).item? = some item) :
    ((tamper reply).classify target salt).item? = some item ↔
      item.value = [] ∧ ∀ seq, item.seq? = some seq → seq = Int64.maxValue := by
  obtain ⟨hvalid, hcarries⟩ := GetReply.valid_of_item?_classify hfound
  constructor
  · intro hstill
    obtain ⟨-, hafter⟩ := GetReply.valid_of_item?_classify hstill
    refine ⟨(value_eq_iff_of_tamper hafter.value_eq).1 hcarries.value_eq, fun seq hseq => ?_⟩
    cases item with
    | immutable value => cases hseq
    | mutable item =>
      cases hseq
      obtain ⟨-, -, hseq, -⟩ := hcarries
      obtain ⟨-, -, hraised, -⟩ := hafter
      change reply.seq.map (·.plus 1000) = some item.seq at hraised
      rw [hseq] at hraised
      exact (Seq.plus_eq_self_iff (by decide)).1 (Option.some_inj.1 hraised)
  · rintro ⟨hempty, hlast⟩
    have hvalue : (tamper reply).value = some item.value := by
      rw [tamper, hcarries.value_eq, Option.getD_some, hempty, invertLast]
    cases item with
    | immutable value =>
      have hclass : (tamper reply).classify target salt = .immutable value :=
        GetReply.classify_eq_immutable_iff.2 ⟨hvalue, Item.isValidFor_immutable_iff.1 hvalid⟩
      rw [hclass, Classification.item?]
    | mutable item =>
      have hseq : (tamper reply).seq = reply.seq := by
        have hbefore := hcarries.2.2.1
        rw [hlast item.seq rfl] at hbefore
        change reply.seq.map (·.plus 1000) = reply.seq
        rw [hbefore]
        exact congrArg some ((Seq.plus_eq_self_iff (by decide)).2 rfl)
      have hsame : tamper reply = { reply with value := (tamper reply).value, seq := (tamper reply).seq } := rfl
      rw [hsame, hvalue, hseq, ← hcarries.value_eq]
      exact hfound

/-- A reply with a key carries the value of the mutable item that the node holds. -/
theorem exists_mutable_of_key {v : View} {request : GetRequest} {key : PublicKey} (hblank : reply.key = none)
    (hkey : (v.lookup request reply).key = some key) :
    ∃ held, v.mutable? request.target = some held ∧ (v.lookup request reply).value = some held.value := by
  cases himmutable : request.seq.elim (v.immutable? request.target) fun _ => none with
  | some value =>
    simp only [View.lookup, himmutable] at hkey
    cases hblank.symm.trans hkey
  | none =>
    cases hheld : v.mutable? request.target with
    | none =>
      simp only [View.lookup, himmutable, hheld] at hkey
      cases hblank.symm.trans hkey
    | some held =>
      refine ⟨held, rfl, ?_⟩
      simp only [View.lookup, himmutable, hheld, withMutable] at hkey ⊢
      split at hkey
      · cases hblank.symm.trans hkey
      · next hnewer => rw [if_neg hnewer]

/-- A node that tampers always replies with a value, and with another one than it would if it was honest, unless that
    is empty. So what is found in its reply has the genuine value only if this is empty, and the same goes for all
    that it holds, apart from immutable values that it was not asked for. What would be found if it was honest is
    found all the same exactly if its value is empty and its sequence number, if it has one, is the last one. -/
theorem tampering_spares_empty_only (n : StorageNode) (requester : Address) (request : GetRequest)
    (nodes : List Node) :
    let reply (behavior : Behavior) := ({ n with behavior }.handleGet requester request nodes).1
    (∃ value, (reply .corrupt).value = some value ∧ ((reply .honest).value = some value ↔ value = [])) ∧
      ∀ salt item,
        (((reply .corrupt).classify request.target salt).item? = some item →
          ((reply .honest).value = some item.value ↔ item.value = []) ∧
          (n.Holds request.target item → request.seq = none ∨ item.isMutable = true → item.value = [])) ∧
        (((reply .honest).classify request.target salt).item? = some item →
          (((reply .corrupt).classify request.target salt).item? = some item ↔
            item.value = [] ∧ ∀ seq, item.seq? = some seq → seq = Int64.maxValue)) := by
  intro reply
  let blank : GetReply := { responder := some n.id, token := some (n.secrets.generate requester), nodes }
  have hhonest : reply .honest = n.view.lookup request blank := fst_handleGet ..
  have hcorrupt : reply .corrupt = tamper (n.view.lookup request blank) := fst_handleGet ..
  rw [hhonest, hcorrupt]
  refine ⟨⟨_, rfl, value_eq_iff_of_tamper rfl⟩, fun salt item => ?_⟩
  refine ⟨fun hfound => ?_, item?_classify_tamper_iff⟩
  obtain ⟨-, hcarries⟩ := GetReply.valid_of_item?_classify hfound
  have hgenuine := value_eq_iff_of_tamper hcarries.value_eq
  refine ⟨hgenuine, fun hholds hlooked => hgenuine.1 ?_⟩
  cases item with
  | immutable value =>
    have hseq : request.seq = none := hlooked.resolve_right nofun
    have himmutable : n.view.immutable? request.target = some value := hholds
    simp only [View.lookup, hseq, Option.elim_none, himmutable, Item.value]
  | mutable item =>
    obtain ⟨-, hkey, -⟩ := hcarries
    obtain ⟨held, hheld, hvalue⟩ := exists_mutable_of_key rfl hkey
    cases hheld.symm.trans hholds
    exact hvalue

/-- An empty value that is held goes out as it is and is accepted. -/
theorem empty_value_spared :
    let n := (create default default ⟨default, default⟩).store (.immutable [])
    let target := immutableTarget []
    let reply (behavior : Behavior) := ({ n with behavior }.handleGet default ⟨target, none⟩ []).1
    n.Holds target (.immutable []) ∧ (reply .honest).value = some [] ∧ (reply .corrupt).value = some [] ∧
      ((reply .corrupt).classify target none).item? = some (.immutable []) := by
  intro n target reply
  have hheld : n.Holds target (.immutable []) := RecencyCache.peek?_insert_self _ target [] (by decide)
  exact ⟨hheld, by decide +kernel, by decide +kernel, by decide +kernel⟩

/-- The text made up for a request above a sequence number may be the very value that the node holds. -/
example :
    let value := invertLast (Bytes.ofAscii "not the value you are looking for")
    let n := { (create default default ⟨default, default⟩).store (.immutable value) with behavior := .corrupt }
    let target := immutableTarget value
    ((n.handleGet default ⟨target, some 0⟩ []).1.classify target none).item? = some (.immutable value) := by
  decide +kernel

end StorageNode

end DhtStore
