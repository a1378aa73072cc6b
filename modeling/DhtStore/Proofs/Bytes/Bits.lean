import DhtStore.Proofs.Bytes
import Mathlib.Data.Nat.Size

namespace DhtStore

section Numbers

variable {k m n r s w x y : Nat}

/-- The number of elements that two lists have in common before they first differ. -/
def commonPrefix {α : Type} [DecidableEq α] (xs ys : List α) : Nat :=
  ((xs.zip ys).takeWhile fun pair => decide (pair.1 = pair.2)).length

/-- The low bits of a number, most significant first. -/
def bitsBE (w n : Nat) : List Bool := (List.range w).reverse.map n.testBit

theorem bitsBE_succ (w n : Nat) : bitsBE (w + 1) n = n.testBit w :: bitsBE w n := by
  rw [bitsBE, List.range_succ, List.reverse_append, List.reverse_singleton, List.singleton_append, List.map_cons,
    bitsBE]

theorem bitsBE_append (hy : y < 2 ^ k) : bitsBE (k + m) (2 ^ k * x + y) = bitsBE m x ++ bitsBE k y := by
  have hlow : (List.range k).map (2 ^ k * x + y).testBit = (List.range k).map y.testBit :=
    List.map_congr_left fun i hi => by rw [Nat.testBit_two_pow_mul_add x hy, if_pos (List.mem_range.1 hi)]
  have hhigh : ((List.range m).map (k + ·)).map (2 ^ k * x + y).testBit = (List.range m).map x.testBit := by
    rw [List.map_map]
    refine List.map_congr_left fun i _ => ?_
    rw [Function.comp_apply, Nat.testBit_two_pow_mul_add x hy, if_neg (by omega), Nat.add_sub_cancel_left]
  rw [bitsBE, List.range_add, List.reverse_append, List.map_append, List.map_reverse, hhigh, List.map_reverse, hlow,
    bitsBE, bitsBE, List.map_reverse, List.map_reverse]

theorem two_pow_mul_add_xor (hr : r < 2 ^ k) (hs : s < 2 ^ k) :
    (2 ^ k * x + r) ^^^ (2 ^ k * y + s) = 2 ^ k * (x ^^^ y) + (r ^^^ s) := by
  refine Nat.eq_of_testBit_eq fun i => ?_
  rw [Nat.testBit_xor, Nat.testBit_two_pow_mul_add x hr, Nat.testBit_two_pow_mul_add y hs,
    Nat.testBit_two_pow_mul_add (x ^^^ y) (Nat.xor_lt_two_pow hr hs)]
  split
  · rw [Nat.testBit_xor]
  · rw [Nat.testBit_xor]

theorem size_of_two_pow_le (hle : 2 ^ w ≤ n) (hlt : n < 2 ^ (w + 1)) : n.size = w + 1 :=
  Nat.le_antisymm (Nat.size_le.2 hlt) (Nat.lt_size.2 hle)

theorem size_eq_log2_add_one (hn : n ≠ 0) : n.size = n.log2 + 1 :=
  size_of_two_pow_le (Nat.log2_self_le hn) Nat.lt_log2_self

/-- The highest bit is that of the high part, unless there is none. -/
theorem size_two_pow_mul_add (hx : x ≠ 0) (hr : r < 2 ^ k) : (2 ^ k * x + r).size = k + x.size := by
  have hlog := size_eq_log2_add_one hx
  have hlow : 2 ^ (k + x.log2) ≤ 2 ^ k * x := by
    rw [pow_add]
    exact Nat.mul_le_mul_left _ (Nat.log2_self_le hx)
  have hhigh : 2 ^ k * (x + 1) ≤ 2 ^ (k + x.log2 + 1) := by
    rw [Nat.add_assoc, pow_add]
    exact Nat.mul_le_mul_left _ Nat.lt_log2_self
  rw [Nat.mul_succ] at hhigh
  rw [size_of_two_pow_le (w := k + x.log2) (by omega) (by omega), hlog, Nat.add_assoc]

theorem size_xor_le (m n : Nat) : (m ^^^ n).size ≤ max m.size n.size :=
  Nat.size_le.2 (Nat.xor_lt_two_pow (Nat.size_le.1 (Nat.le_max_left ..)) (Nat.size_le.1 (Nat.le_max_right ..)))

/-- Two numbers have the same bits in front of the highest bit of their exclusive or, whatever bits they have beyond
    the width. -/
theorem commonPrefix_bitsBE_add_size (w m n : Nat) :
    commonPrefix (bitsBE w m) (bitsBE w n) + ((m ^^^ n) % 2 ^ w).size = w := by
  induction w with
  | zero => simp [commonPrefix, bitsBE, Nat.mod_one]
  | succ w ih =>
    rw [bitsBE_succ, bitsBE_succ, Nat.mod_pow_succ, ← Nat.toNat_testBit, Nat.testBit_xor]
    by_cases hbit : m.testBit w = n.testBit w
    · -- the numbers agree on this bit, so the exclusive or has none here
      have hshared : commonPrefix (m.testBit w :: bitsBE w m) (n.testBit w :: bitsBE w n) =
          commonPrefix (bitsBE w m) (bitsBE w n) + 1 := by
        simp [commonPrefix, hbit]
      rw [hshared, hbit, Bool.xor_self, Bool.toNat_false, Nat.mul_zero, Nat.add_zero ((m ^^^ n) % 2 ^ w),
        Nat.add_right_comm, ih]
    · have hshared : commonPrefix (m.testBit w :: bitsBE w m) (n.testBit w :: bitsBE w n) = 0 := by
        simp [commonPrefix, hbit]
      have hlow : (m ^^^ n) % 2 ^ w < 2 ^ w := Nat.mod_lt _ (Nat.two_pow_pos w)
      have hsize : ((m ^^^ n) % 2 ^ w + 2 ^ w).size = w + 1 :=
        size_of_two_pow_le (Nat.le_add_left ..) (by rw [pow_succ]; omega)
      rw [hshared, (Bool.xor_iff_ne ..).2 hbit, Bool.toNat_true, Nat.mul_one, hsize, Nat.zero_add]

end Numbers

namespace Bytes

/-- The bits of a byte string, those of each byte from the most significant one on. -/
def bits (bs : Bytes) : List Bool := bs.flatMap fun b => bitsBE 8 b.toNat

theorem two_pow_eight_mul (n : Nat) : 2 ^ (8 * n) = 256 ^ n := pow_mul 2 8 n

theorem toNatBE_lt_two_pow (bs : Bytes) : toNatBE bs < 2 ^ (8 * bs.length) := by
  rw [two_pow_eight_mul]
  exact toNatBE_lt bs

theorem toNatBE_cons_two_pow (b : UInt8) (bs : Bytes) :
    toNatBE (b :: bs) = 2 ^ (8 * bs.length) * b.toNat + toNatBE bs := by
  rw [toNatBE_cons, two_pow_eight_mul, Nat.mul_comm]

theorem bits_eq (bs : Bytes) : bits bs = bitsBE (8 * bs.length) (toNatBE bs) := by
  induction bs with
  | nil => rfl
  | cons b bs ih =>
    rw [toNatBE_cons_two_pow, List.length_cons, Nat.mul_succ, bitsBE_append (toNatBE_lt_two_pow bs), ← ih]
    rfl

theorem toNatBE_zipWith_xor {bs cs : Bytes} (hlength : bs.length = cs.length) :
    toNatBE (List.zipWith (· ^^^ ·) bs cs) = toNatBE bs ^^^ toNatBE cs := by
  induction bs generalizing cs with
  | nil =>
    obtain rfl := List.length_eq_zero_iff.1 hlength.symm
    rfl
  | cons b bs ih =>
    cases cs with
    | nil => cases hlength
    | cons c cs =>
      have hrest := Nat.succ.inj hlength
      have hbs := toNatBE_lt_two_pow bs
      rw [hrest] at hbs
      rw [List.zipWith_cons_cons, toNatBE_cons_two_pow, toNatBE_cons_two_pow, toNatBE_cons_two_pow, ih hrest,
        List.length_zipWith, hrest, Nat.min_self, two_pow_mul_add_xor hbs (toNatBE_lt_two_pow cs), UInt8.toNat_xor]

end Bytes

end DhtStore
