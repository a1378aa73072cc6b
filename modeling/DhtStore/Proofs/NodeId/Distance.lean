import DhtStore.Proofs.Bytes.Bits
import DhtStore.Proofs.NodeId.Order

namespace DhtStore

namespace NodeId

variable {a b c target : NodeId}

section Length

theorem toNat_xor (a b : NodeId) : (a.xor b).toNat = a.toNat ^^^ b.toNat :=
  Bytes.toNatBE_zipWith_xor (a.length_bytes.trans b.length_bytes.symm)

theorem toNat_injective : Function.Injective toNat := by
  intro a b hsame
  have hnot {c d : NodeId} (heq : c.toNat = d.toNat) : ¬ c < d :=
    fun hlt => Nat.ne_of_lt (lt_iff_toNat_lt.1 hlt) heq
  exact ext (List.le_antisymm (List.not_lt.1 (hnot hsame.symm)) (List.not_lt.1 (hnot hsame)))

/-- The bits of a byte string are the zeros at its front and those that its number needs. -/
theorem leadingZeros_add_size (bs : Bytes) : leadingZeros bs + bs.toNatBE.size = 8 * bs.length := by
  induction bs with
  | nil => rfl
  | cons b bs ih =>
    rw [leadingZeros, Bytes.toNatBE_cons_two_pow, List.length_cons]
    by_cases hzero : b = 0
    · rw [if_pos hzero, hzero, UInt8.toNat_zero, Nat.mul_zero, Nat.zero_add]
      omega
    · have hne : b.toNat ≠ 0 := fun heq => hzero (UInt8.toNat_inj.1 heq)
      have hsize := size_eq_log2_add_one hne
      have hbyte : b.toNat.size ≤ 8 := Nat.size_le.2 b.toNat_lt
      rw [if_neg hzero, size_two_pow_mul_add hne (Bytes.toNatBE_lt_two_pow bs)]
      omega

theorem leadingZeros_add_size_xor (a b : NodeId) :
    leadingZeros (a.xor b).bytes + (a.toNat ^^^ b.toNat).size = 160 := by
  rw [← toNat_xor, toNat, leadingZeros_add_size, length_bytes]

theorem distance_eq_size (a b : NodeId) : a.distance b = (a.toNat ^^^ b.toNat).size := by
  have hzeros := leadingZeros_add_size_xor a b
  rw [distance]
  omega

theorem commonPrefix_add_distance (a b : NodeId) :
    commonPrefix a.bytes.bits b.bytes.bits + a.distance b = 160 := by
  have hshared := commonPrefix_bitsBE_add_size 160 a.toNat b.toNat
  have hbits (a : NodeId) : a.bytes.bits = bitsBE 160 a.toNat := by
    rw [Bytes.bits_eq, length_bytes, toNat]
  have hbound (a : NodeId) : a.toNat < 2 ^ 160 := by
    have hlt := a.bytes.toNatBE_lt_two_pow
    rwa [length_bytes] at hlt
  rwa [Nat.mod_eq_of_lt (Nat.xor_lt_two_pow (hbound a) (hbound b)), ← hbits, ← hbits, ← distance_eq_size] at hshared

end Length

section Metric

theorem distance_comm (a b : NodeId) : a.distance b = b.distance a := by
  rw [distance_eq_size, distance_eq_size, Nat.xor_comm]

theorem distance_eq_zero_iff : a.distance b = 0 ↔ a = b := by
  rw [distance_eq_size, Nat.size_eq_zero, Nat.xor_eq_zero_iff, toNat_injective.eq_iff]

/-- Two ids that share a prefix with a third share it with each other. -/
theorem distance_le_max (a b c : NodeId) : a.distance c ≤ max (a.distance b) (b.distance c) := by
  have hthrough : a.toNat ^^^ c.toNat = (a.toNat ^^^ b.toNat) ^^^ (b.toNat ^^^ c.toNat) := by
    rw [Nat.xor_assoc, ← Nat.xor_assoc b.toNat, Nat.xor_self, Nat.zero_xor]
  rw [distance_eq_size, distance_eq_size, distance_eq_size, hthrough]
  exact size_xor_le ..

/-- An id that is not closer to a target has no smaller simplified distance to it. -/
theorem distance_le_of_not_closer (hnot : ¬ CloserTo target b a) : a.distance target ≤ b.distance target := by
  have hle : (a.xor target).toNat ≤ (b.xor target).toNat := by
    rw [← Nat.not_lt]
    exact fun hlt => hnot (lt_iff_toNat_lt.2 hlt)
  rw [distance_eq_size, distance_eq_size, ← toNat_xor, ← toNat_xor]
  exact Nat.size_le_size hle

end Metric

section Words

theorem exists_word?_eq {w : Nat} {n : Int} (hlow : 0 ≤ n) (hhigh : n < 2 ^ w) :
    ∃ x, word? w n = some x ∧ x.toNat = n := by
  have hword : n < (1 <<< w : Nat) := by
    rwa [Nat.one_shiftLeft, Nat.cast_pow, Nat.cast_ofNat]
  refine ⟨BitVec.ofInt w n, if_pos ⟨hlow, hword⟩, ?_⟩
  rw [BitVec.toNat_ofInt, Int.toNat_of_nonneg (Int.emod_nonneg _ (by positivity)), Nat.cast_pow, Nat.cast_ofNat,
    Int.emod_eq_of_lt hlow hhigh]

theorem exists_furthest?_eq : ∃ furthest, furthest? = some furthest ∧ furthest.toNat = 160 := by
  obtain ⟨octets, hoctets, hcount⟩ := exists_word?_eq (w := 8) (n := size) (by decide) (by decide)
  have hcount : octets.toNat = 20 := Int.ofNat_inj.1 hcount
  obtain ⟨furthest, hfurthest, hvalue⟩ := exists_word?_eq (w := 8) (n := octets.toNat * 8) (by omega) (by omega)
  rw [furthest?]
  exact ⟨furthest, Option.bind_eq_some_iff.2 ⟨octets, hoctets, hfurthest⟩, by omega⟩

theorem clz_add_size {w : Nat} {x : BitVec w} (hx : x ≠ 0) : x.clz.toNat + x.toNat.size = w := by
  have hlt : x.clz.toNat < w := by
    simpa [BitVec.lt_def, Nat.mod_eq_of_lt Nat.lt_two_pow_self] using BitVec.clz_lt_iff_ne_zero.2 hx
  have hlow := BitVec.two_pow_sub_clz_le_toNat_of_ne_zero (by omega) hx
  have hhigh := BitVec.toNat_lt_two_pow_sub_clz (x := x)
  have hbits : w - x.clz.toNat = w - 1 - x.clz.toNat + 1 := by omega
  rw [hbits] at hhigh
  rw [size_of_two_pow_le hlow hhigh]
  omega

theorem exists_zerosUpTo?_eq {index : Nat} {b : UInt8} (hindex : index < 20) (hne : b ≠ 0) :
    ∃ zeros, zerosUpTo? index b = some zeros ∧ zeros.toNat = 8 * index + (7 - b.toNat.log2) := by
  have hclz := clz_add_size (x := b.toBitVec) fun heq => hne (UInt8.toBitVec_inj.1 heq)
  have hsize : b.toBitVec.toNat.size = b.toNat.log2 + 1 :=
    size_eq_log2_add_one fun heq => hne (UInt8.toNat_inj.1 heq)
  -- there are no more than 19 bytes and 7 bits before the bit that is set, so every count stays below 256
  obtain ⟨octets, hoctets, hindexValue⟩ := exists_word?_eq (w := 32) (n := index) (by omega) (by omega)
  obtain ⟨before, hbefore, hbeforeValue⟩ :=
    exists_word?_eq (w := 32) (n := octets.toNat * 8) (by omega) (by omega)
  obtain ⟨zeros, hzeros, hzerosValue⟩ :=
    exists_word?_eq (w := 32) (n := before.toNat + b.toBitVec.clz.toNat) (by omega) (by omega)
  obtain ⟨narrow, hnarrow, hvalue⟩ := exists_word?_eq (w := 8) (n := zeros.toNat) (by omega) (by omega)
  rw [zerosUpTo?]
  refine ⟨narrow, Option.bind_eq_some_iff.2 ⟨octets, hoctets, ?_⟩, by omega⟩
  exact Option.bind_eq_some_iff.2 ⟨before, hbefore, Option.bind_eq_some_iff.2 ⟨zeros, hzeros, hnarrow⟩⟩

/-- No count overflows its word, as an id has no more than 20 bytes. -/
theorem exists_leadingZerosFrom?_eq (index : Nat) (bs : Bytes) (hlength : index + bs.length = 20) :
    ∃ zeros, leadingZerosFrom? index bs = some zeros ∧ zeros.toNat = 8 * index + leadingZeros bs := by
  induction bs generalizing index with
  | nil =>
    obtain ⟨furthest, hfurthest, hvalue⟩ := exists_furthest?_eq
    rw [List.length_nil] at hlength
    exact ⟨furthest, hfurthest, by rw [leadingZeros]; omega⟩
  | cons b bs ih =>
    rw [List.length_cons] at hlength
    rw [leadingZerosFrom?, leadingZeros]
    by_cases hzero : b = 0
    · obtain ⟨zeros, hzeros, hvalue⟩ := ih (index + 1) (by omega)
      rw [if_neg (not_not_intro hzero), if_pos hzero]
      exact ⟨zeros, hzeros, by omega⟩
    · rw [if_pos hzero, if_neg hzero]
      exact exists_zerosUpTo?_eq (by omega) hzero

/-- The words in which the distance is computed hold every result on the way. -/
theorem exists_distanceInWords?_eq (a b : NodeId) :
    ∃ d, a.distanceInWords? b = some d ∧ d.toNat = a.distance b := by
  have hsum := leadingZeros_add_size_xor a b
  obtain ⟨furthest, hfurthest, hbits⟩ := exists_furthest?_eq
  obtain ⟨zeros, hzeros, hcount⟩ := exists_leadingZerosFrom?_eq 0 (a.xor b).bytes (by rw [Nat.zero_add, length_bytes])
  obtain ⟨d, hd, hvalue⟩ := exists_word?_eq (w := 8) (n := furthest.toNat - zeros.toNat) (by omega) (by omega)
  rw [distanceInWords?, distance]
  refine ⟨d, Option.bind_eq_some_iff.2 ⟨furthest, hfurthest, ?_⟩, by omega⟩
  exact Option.bind_eq_some_iff.2 ⟨zeros, hzeros, hd⟩

end Words

/-- The simplified distance of two ids is computed without overflow. It is the length of their exclusive or as a
    number, and so what the bits that they have in common at their front leave of the 160. It is a symmetric
    ultrametric, and of two ids the one that is no farther from a target by the full distance is no farther by the
    simplified one. -/
theorem distance_geometry (a b c target : NodeId) :
    (∃ d, a.distanceInWords? b = some d ∧ d.toNat = a.distance b) ∧
    (a.xor b).toNat = a.toNat ^^^ b.toNat ∧
    a.distance b = (a.xor b).toNat.size ∧
    commonPrefix a.bytes.bits b.bytes.bits + a.distance b = 160 ∧
    a.distance b = b.distance a ∧
    (a.distance b = 0 ↔ a = b) ∧
    a.distance c ≤ max (a.distance b) (b.distance c) ∧
    (¬ CloserTo target b a → a.distance target ≤ b.distance target) := by
  refine ⟨exists_distanceInWords?_eq a b, toNat_xor a b, ?_, commonPrefix_add_distance a b, distance_comm a b,
    distance_eq_zero_iff, distance_le_max a b c, distance_le_of_not_closer⟩
  rw [toNat_xor, distance_eq_size]

/-- Two ids that have their first five bits in common, and a target with which the first has seven. -/
theorem distance_geometry_five_bits :
    let a : NodeId := ⟨Octets.ofPadded [0x06, 0x39, 0xA1, 0xE2, 0x4F, 0xBB, 0x8A, 0xB2, 0x77, 0xDF, 0x03, 0x34, 0x76,
      0xAB, 0x0D, 0xE1, 0x0F, 0xAB, 0x3B, 0xDC]⟩
    let b : NodeId := ⟨Octets.ofPadded [0x03, 0x5B, 0x1A, 0xEB, 0x97, 0x37, 0xAD, 0xE1, 0xA8, 0x09, 0x33, 0x59, 0x4F,
      0x40, 0x5D, 0x3F, 0x77, 0x2A, 0xA0, 0x8E]⟩
    let target : NodeId := ⟨Octets.ofPadded [0x07]⟩
    (∃ d, a.distanceInWords? b = some d ∧ d.toNat = 155) ∧ commonPrefix a.bytes.bits b.bytes.bits = 5 ∧
      ¬ CloserTo target b a ∧ a.distance target = 153 ∧ a.distance target ≤ b.distance target := by
  intro a b target
  have hdistance : a.distance b = 155 := by decide
  have hcloser : ¬ CloserTo target b a := by decide
  obtain ⟨hwords, -, -, hshared, -, -, -, hcompatible⟩ := distance_geometry a b target target
  rw [hdistance] at hwords hshared
  exact ⟨hwords, by omega, hcloser, by decide, hcompatible hcloser⟩

end NodeId

end DhtStore
