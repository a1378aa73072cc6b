import DhtStore.Hash.Crc32c
import DhtStore.Proofs.Bytes
import Mathlib.Data.Finite.Prod
import Mathlib.Logic.Function.Iterate

namespace DhtStore.Crc32c

variable {x y : UInt32}

theorem xor_xor_cancel_left (x y : UInt32) : x ^^^ (x ^^^ y) = y := by
  rw [← UInt32.xor_assoc, UInt32.xor_self, UInt32.zero_xor]

theorem toNat_shiftRight_one (x : UInt32) : (x >>> 1).toNat = x.toNat / 2 := by
  rw [UInt32.toNat_shiftRight]
  exact Nat.shiftRight_one x.toNat

theorem bitStep_of_even (heven : x.toNat % 2 = 0) : bitStep x = x >>> 1 := by
  have hbit : x &&& 1 ≠ 1 := fun hone => by
    have hnat := congrArg UInt32.toNat hone
    rw [UInt32.toNat_and, UInt32.toNat_one, Nat.and_one_is_mod, heven] at hnat
    cases hnat
  exact if_neg hbit

theorem bitStep_of_odd (hodd : x.toNat % 2 = 1) : bitStep x = x >>> 1 ^^^ polynomial := by
  have hbit : x &&& 1 = 1 := by
    apply UInt32.toNat_inj.1
    rw [UInt32.toNat_and, UInt32.toNat_one, Nat.and_one_is_mod, hodd]
  exact if_pos hbit

theorem bitStep_xor (x y : UInt32) : bitStep (x ^^^ y) = bitStep x ^^^ bitStep y := by
  have hparity : (x ^^^ y).toNat % 2 = (x.toNat + y.toNat) % 2 := by
    rw [UInt32.toNat_xor, Nat.xor_mod_two_eq]
  rcases Nat.mod_two_eq_zero_or_one x.toNat with hx | hx <;>
    rcases Nat.mod_two_eq_zero_or_one y.toNat with hy | hy
  · rw [bitStep_of_even hx, bitStep_of_even hy, bitStep_of_even (by omega), UInt32.shiftRight_xor]
  · rw [bitStep_of_even hx, bitStep_of_odd hy, bitStep_of_odd (by omega), UInt32.shiftRight_xor,
      UInt32.xor_assoc]
  · rw [bitStep_of_odd hx, bitStep_of_even hy, bitStep_of_odd (by omega), UInt32.shiftRight_xor,
      UInt32.xor_assoc, UInt32.xor_assoc, UInt32.xor_comm polynomial]
  -- The polynomial is taken off twice, which is not at all.
  · rw [bitStep_of_odd hx, bitStep_of_odd hy, bitStep_of_even (by omega), UInt32.shiftRight_xor,
      UInt32.xor_comm (y >>> 1), UInt32.xor_assoc, xor_xor_cancel_left]

/-- Only the zero register is divided to zero, as the topmost bit of the polynomial is set. -/
theorem eq_zero_of_bitStep (hzero : bitStep x = 0) : x = 0 := by
  have hhalf := toNat_shiftRight_one x
  have hbound := x.toNat_lt
  apply UInt32.toNat_inj.1
  rcases Nat.mod_two_eq_zero_or_one x.toNat with heven | hodd
  · rw [bitStep_of_even heven] at hzero
    rw [hzero, UInt32.toNat_zero] at hhalf
    rw [UInt32.toNat_zero]
    omega
  · rw [bitStep_of_odd hodd, UInt32.xor_eq_zero_iff] at hzero
    have hpolynomial : polynomial.toNat = 0x82F63B78 := rfl
    rw [hzero, hpolynomial] at hhalf
    omega

theorem bitStep_injective : Function.Injective bitStep := by
  intro x y hsame
  have hzero : bitStep (x ^^^ y) = 0 := by rw [bitStep_xor, hsame, UInt32.xor_self]
  exact UInt32.xor_eq_zero_iff.1 (eq_zero_of_bitStep hzero)

theorem bitStep_surjective : Function.Surjective bitStep :=
  have : Finite UInt32 := .of_injective UInt32.toFin fun _ _ => UInt32.toFin_inj.1
  Finite.injective_iff_surjective.1 bitStep_injective

theorem bitStep_two_mul {m : Nat} (hm : 2 * m < 2 ^ 32) : bitStep (UInt32.ofNat (2 * m)) = UInt32.ofNat m := by
  have hdouble : (UInt32.ofNat (2 * m)).toNat = 2 * m := UInt32.toNat_ofNat_of_lt' hm
  have hhalf : m < 2 ^ 32 := by omega
  rw [bitStep_of_even (by omega)]
  apply UInt32.toNat_inj.1
  rw [toNat_shiftRight_one, hdouble, UInt32.toNat_ofNat_of_lt' hhalf, Nat.mul_div_cancel_left m (by decide)]

theorem iterate_bitStep_xor (n : Nat) (x y : UInt32) :
    bitStep^[n] (x ^^^ y) = bitStep^[n] x ^^^ bitStep^[n] y := by
  induction n generalizing x y with
  | zero => rfl
  | succ n ih => simp only [Function.iterate_succ_apply, bitStep_xor, ih]

/-- Bits move down unchanged until they arrive at the bottom. -/
theorem iterate_bitStep_two_pow_mul (n : Nat) {m : Nat} (hm : 2 ^ n * m < 2 ^ 32) :
    bitStep^[n] (UInt32.ofNat (2 ^ n * m)) = UInt32.ofNat m := by
  induction n with
  | zero => rw [pow_zero, one_mul, Function.iterate_zero_apply]
  | succ n ih =>
    have hsplit : 2 ^ (n + 1) * m = 2 * (2 ^ n * m) := by ring
    rw [hsplit] at hm
    rw [Function.iterate_succ_apply, hsplit, bitStep_two_mul hm, ih (by omega)]

theorem byteStep_eq (x : UInt32) (b : UInt8) : byteStep x b = bitStep^[8] (x ^^^ b.toUInt32) := rfl

/-- The register after some bytes. -/
def run (register : UInt32) (bs : Bytes) : UInt32 := bs.foldl byteStep register

@[simp] theorem run_cons (x : UInt32) (b : UInt8) (bs : Bytes) : run x (b :: bs) = run (byteStep x b) bs := rfl

@[simp] theorem run_append (x : UInt32) (bs cs : Bytes) : run x (bs ++ cs) = run (run x bs) cs :=
  List.foldl_append

theorem checksum_eq (bs : Bytes) : checksum bs = run 0xFFFFFFFF bs ^^^ 0xFFFFFFFF := rfl

theorem byteStep_xor (x y : UInt32) (b : UInt8) : byteStep (x ^^^ y) b = byteStep x b ^^^ bitStep^[8] y := by
  rw [byteStep_eq, byteStep_eq, ← iterate_bitStep_xor, UInt32.xor_assoc, UInt32.xor_comm y, UInt32.xor_assoc]

/-- What becomes of a difference between two registers depends on the number of the bytes behind it only. -/
theorem run_xor (x y : UInt32) (bs : Bytes) : run (x ^^^ y) bs = run x bs ^^^ bitStep^[8 * bs.length] y := by
  induction bs generalizing x y with
  | nil => rfl
  | cons b bs ih =>
    rw [run_cons, run_cons, byteStep_xor, ih, ← Function.iterate_add_apply, List.length_cons, Nat.mul_succ]

theorem run_xor_run (x y : UInt32) (bs : Bytes) : run x bs ^^^ run y bs = bitStep^[8 * bs.length] (x ^^^ y) := by
  have hdifference := run_xor x (x ^^^ y) bs
  rw [xor_xor_cancel_left] at hdifference
  rw [hdifference, xor_xor_cancel_left]

/-- Registers stay apart whatever bytes are mixed in behind them. -/
theorem run_injective (bs : Bytes) : Function.Injective (run · bs) := by
  intro x y hsame
  have hzero : bitStep^[8 * bs.length] (x ^^^ y) = bitStep^[8 * bs.length] 0 := by
    rw [← run_xor_run, Function.iterate_fixed (rfl : bitStep 0 = 0)]
    exact UInt32.xor_eq_zero_iff.2 hsame
  exact UInt32.xor_eq_zero_iff.1 (bitStep_injective.iterate _ hzero)

/-- By how much the checksums of two byte strings differ that end alike: it does not show how they end. -/
theorem checksum_append_xor (front front' bs : Bytes) :
    checksum (front ++ bs) ^^^ checksum (front' ++ bs) =
      bitStep^[8 * bs.length] (run 0xFFFFFFFF front ^^^ run 0xFFFFFFFF front') := by
  rw [checksum_eq, checksum_eq, run_append, run_append, UInt32.xor_comm _ 0xFFFFFFFF, UInt32.xor_assoc,
    UInt32.xor_comm 0xFFFFFFFF, UInt32.xor_assoc, UInt32.xor_assoc, UInt32.xor_self, UInt32.xor_zero, run_xor_run]

/-- The low byte of a number and the rest of it have no bits in common. -/
theorem mod_xor_mul_div (w : Nat) : (w % 2 ^ 8) ^^^ (2 ^ 8 * (w / 2 ^ 8)) = w := by
  have hmod : ((w % 2 ^ 8) ^^^ (2 ^ 8 * (w / 2 ^ 8))) % 2 ^ 8 = w % 2 ^ 8 := by
    rw [Nat.xor_mod_two_pow, Nat.mod_mod, Nat.mul_mod_right, Nat.xor_zero]
  have hdiv : ((w % 2 ^ 8) ^^^ (2 ^ 8 * (w / 2 ^ 8))) / 2 ^ 8 = w / 2 ^ 8 := by
    rw [Nat.xor_div_two_pow, Nat.div_eq_of_lt (Nat.mod_lt w (by decide)), Nat.zero_xor,
      Nat.mul_div_cancel_left _ (by decide)]
  omega

/-- Up to four bytes may as well be mixed into the register all at once. -/
theorem run_ofNatLE (x : UInt32) {n w : Nat} (hn : n ≤ 4) (hw : w < 256 ^ n) :
    run x (Bytes.ofNatLE n w) = bitStep^[8 * n] (x ^^^ UInt32.ofNat w) := by
  induction n generalizing x w with
  | zero =>
    obtain rfl : w = 0 := by simpa using hw
    exact UInt32.xor_zero.symm
  | succ n ih =>
    have hbound : w < 2 ^ 32 := hw.trans_le ((Nat.pow_le_pow_right (by decide) hn).trans (by decide))
    have hrest : w / 256 < 256 ^ n := Nat.div_lt_of_lt_mul (by rwa [← pow_succ'])
    have hlow : (UInt8.ofNat w).toUInt32 = UInt32.ofNat (w % 2 ^ 8) := by
      apply UInt32.toNat_inj.1
      have hbyte : w % 2 ^ 8 < 2 ^ 32 := by omega
      rw [UInt8.toNat_toUInt32, UInt8.toNat_ofNat', UInt32.toNat_ofNat_of_lt' hbyte]
    have hhigh : UInt32.ofNat (w / 256) = bitStep^[8] (UInt32.ofNat (2 ^ 8 * (w / 2 ^ 8))) :=
      (iterate_bitStep_two_pow_mul 8 (by omega)).symm
    rw [Bytes.ofNatLE, run_cons, ih _ (by omega) hrest, hhigh, byteStep_eq, hlow, ← iterate_bitStep_xor,
      ← Function.iterate_add_apply, UInt32.xor_assoc, ← UInt32.ofNat_xor, mod_xor_mul_div, Nat.mul_succ]

/-- Different words of four bytes take a register to different ones. -/
theorem eq_of_run_eq (x : UInt32) {bs cs : Bytes} (hbs : bs.length = 4) (hcs : cs.length = 4)
    (hsame : run x bs = run x cs) : bs = cs := by
  have hword (ds : Bytes) (hds : ds.length = 4) : Bytes.toNatLE ds < 2 ^ 32 ∧
      run x ds = bitStep^[32] (x ^^^ UInt32.ofNat (Bytes.toNatLE ds)) := by
    have hbound := Bytes.toNatLE_lt ds
    have hrun := run_ofNatLE x (Nat.le_of_eq hds) hbound
    rw [Bytes.ofNatLE_toNatLE] at hrun
    rw [hds] at hbound hrun
    exact ⟨hbound, hrun⟩
  obtain ⟨hb, hrunb⟩ := hword bs hbs
  obtain ⟨hc, hrunc⟩ := hword cs hcs
  rw [hrunb, hrunc] at hsame
  have hnat := congrArg UInt32.toNat ((UInt32.xor_right_inj x).1 (bitStep_injective.iterate 32 hsame))
  rw [UInt32.toNat_ofNat_of_lt' hb, UInt32.toNat_ofNat_of_lt' hc] at hnat
  rw [← Bytes.ofNatLE_toNatLE bs, ← Bytes.ofNatLE_toNatLE cs, hbs, hcs, hnat]

/-- Any register is reached from any other by four bytes. -/
theorem exists_run_eq (x y : UInt32) : ∃ bs : Bytes, bs.length = 4 ∧ run x bs = y := by
  obtain ⟨z, hz⟩ := bitStep_surjective.iterate 32 y
  refine ⟨Bytes.ofNatLE 4 (x ^^^ z).toNat, Bytes.length_ofNatLE 4 _, ?_⟩
  rw [run_ofNatLE x (Nat.le_refl 4) (x ^^^ z).toNat_lt, UInt32.ofNat_toNat, xor_xor_cancel_left]
  exact hz

end DhtStore.Crc32c
