import DhtStore.Bytes
import Mathlib.Data.Nat.Bitwise
import Mathlib.Data.Nat.Digits.Defs
import Mathlib.Tactic.Ring

namespace DhtStore

/-- One byte string behind another. -/
def Octets.append {m n : Nat} (a : Octets m) (b : Octets n) : Octets (m + n) :=
  ⟨a.bytes ++ b.bytes, by rw [List.length_append, a.length_bytes, b.length_bytes]⟩

namespace Bytes

section FixedWidth

theorem toNatLE_lt (bs : Bytes) : toNatLE bs < 256 ^ bs.length := by
  induction bs with
  | nil => decide
  | cons b bs ih =>
    have hb := b.toNat_lt
    rw [toNatLE, List.length_cons, pow_succ']
    omega

theorem ofNatLE_toNatLE (bs : Bytes) : ofNatLE bs.length (toNatLE bs) = bs := by
  induction bs with
  | nil => rfl
  | cons b bs ih =>
    have hb := b.toNat_lt
    have hhead : UInt8.ofNat (b.toNat + 256 * toNatLE bs) = b := by
      apply UInt8.toNat_inj.1
      rw [UInt8.toNat_ofNat']
      omega
    have htail : (b.toNat + 256 * toNatLE bs) / 256 = toNatLE bs := by omega
    rw [List.length_cons, toNatLE, ofNatLE, hhead, htail, ih]

theorem toNatLE_ofNatLE {n v : Nat} (hv : v < 256 ^ n) : toNatLE (ofNatLE n v) = v := by
  induction n generalizing v with
  | zero =>
    rw [pow_zero] at hv
    exact (Nat.lt_one_iff.1 hv).symm
  | succ n ih =>
    rw [ofNatLE, toNatLE, UInt8.toNat_ofNat', ih (Nat.div_lt_of_lt_mul (by rwa [← pow_succ']))]
    exact Nat.mod_add_div v 256

theorem ofNatBE_inj {n v w : Nat} (hv : v < 256 ^ n) (hw : w < 256 ^ n) :
    ofNatBE n v = ofNatBE n w ↔ v = w := by
  constructor
  · intro hsame
    rw [← toNatLE_ofNatLE hv, List.reverse_inj.1 hsame, toNatLE_ofNatLE hw]
  · exact congrArg (ofNatBE n)

theorem exists_ofNatBE_eq (bs : Bytes) : ∃ v < 256 ^ bs.length, ofNatBE bs.length v = bs := by
  have hbound := toNatLE_lt bs.reverse
  have hreverse := ofNatLE_toNatLE bs.reverse
  rw [List.length_reverse] at hbound hreverse
  exact ⟨_, hbound, by rw [ofNatBE, hreverse, List.reverse_reverse]⟩

theorem ofNatLE_xor (n v w : Nat) :
    ofNatLE n (v ^^^ w) = List.zipWith (· ^^^ ·) (ofNatLE n v) (ofNatLE n w) := by
  induction n generalizing v w with
  | zero => rfl
  | succ n ih =>
    have hrest : (v ^^^ w) / 256 = v / 256 ^^^ w / 256 := Nat.xor_div_two_pow (n := 8)
    rw [ofNatLE, ofNatLE, ofNatLE, List.zipWith_cons_cons, UInt8.ofNat_xor, hrest, ih]

theorem ofNatBE_xor (n v w : Nat) :
    ofNatBE n (v ^^^ w) = List.zipWith (· ^^^ ·) (ofNatBE n v) (ofNatBE n w) := by
  rw [ofNatBE, ofNatBE, ofNatBE, ofNatLE_xor, List.reverse_zipWith (by simp)]

theorem zipWith_xor_cancel_left {bs cs : Bytes} (hlength : bs.length = cs.length) :
    List.zipWith (· ^^^ ·) bs (List.zipWith (· ^^^ ·) bs cs) = cs := by
  induction bs generalizing cs with
  | nil => exact (List.length_eq_zero_iff.1 hlength.symm).symm
  | cons b bs ih =>
    cases cs with
    | nil => cases hlength
    | cons c cs =>
      rw [List.zipWith_cons_cons, List.zipWith_cons_cons, ih (Nat.succ.inj hlength), ← UInt8.xor_assoc,
        UInt8.xor_self, UInt8.zero_xor]

/-- The first byte counts for as much as the power of 256 that the bytes behind it stay below. -/
theorem toNatBE_cons (b : UInt8) (bs : Bytes) : toNatBE (b :: bs) = b.toNat * 256 ^ bs.length + toNatBE bs := by
  have hfold (bs : Bytes) (acc : Nat) :
      bs.foldl (fun acc b => 256 * acc + b.toNat) acc = acc * 256 ^ bs.length + toNatBE bs := by
    induction bs generalizing acc with
    | nil => simp [toNatBE]
    | cons b bs ih =>
      rw [toNatBE, List.foldl_cons, List.foldl_cons, ih, ih (256 * 0 + b.toNat), List.length_cons, pow_succ]
      ring
  rw [toNatBE, List.foldl_cons, hfold, Nat.mul_zero, Nat.zero_add]

theorem toNatBE_lt (bs : Bytes) : toNatBE bs < 256 ^ bs.length := by
  induction bs with
  | nil => decide
  | cons b bs ih =>
    have hb := Nat.mul_le_mul_right (256 ^ bs.length) (Nat.succ_le_of_lt b.toNat_lt)
    rw [Nat.succ_mul] at hb
    rw [toNatBE_cons, List.length_cons, pow_succ']
    omega

/-- Byte strings of one length are ordered as the numbers that they spell. -/
theorem lt_iff_toNatBE_lt {bs cs : Bytes} (hlength : bs.length = cs.length) :
    bs < cs ↔ toNatBE bs < toNatBE cs := by
  induction bs generalizing cs with
  | nil =>
    obtain rfl := List.length_eq_zero_iff.1 hlength.symm
    exact ⟨fun hlt => absurd hlt (List.lt_irrefl _), fun hlt => absurd hlt (Nat.lt_irrefl _)⟩
  | cons b bs ih =>
    cases cs with
    | nil => cases hlength
    | cons c cs =>
      have hrest := Nat.succ.inj hlength
      have hbs := toNatBE_lt bs
      have hcs := toNatBE_lt cs
      rw [List.cons_lt_cons_iff, ih hrest, toNatBE_cons, toNatBE_cons, UInt8.lt_iff_toNat_lt,
        ← UInt8.toNat_inj, hrest]
      rw [hrest] at hbs
      -- the rests stay below the unit, so the first bytes decide unless they are the same
      generalize 256 ^ cs.length = unit at hbs hcs ⊢
      obtain hlt | heq | hgt := Nat.lt_trichotomy b.toNat c.toNat
      · have hstep := Nat.mul_le_mul_right unit (Nat.succ_le_of_lt hlt)
        rw [Nat.succ_mul] at hstep
        omega
      · rw [heq]
        omega
      · have hstep := Nat.mul_le_mul_right unit (Nat.succ_le_of_lt hgt)
        rw [Nat.succ_mul] at hstep
        omega

end FixedWidth

section Decimal

/-- Whether a byte is a decimal digit in ASCII. -/
def isDigit (b : UInt8) : Bool := decide (48 ≤ b.toNat ∧ b.toNat ≤ 57)

theorem digit_toDigits {n : Nat} {c : Char} (hc : c ∈ Nat.toDigits 10 n) : 48 ≤ c.toNat ∧ c.toNat ≤ 57 :=
  Char.isDigit_iff_toNat.1 (Nat.isDigit_of_mem_toDigits (by decide) (by decide) hc)

theorem isDigit_of_mem_ofDecimal {n : Nat} : ∀ b ∈ ofDecimal n, isDigit b = true := by
  intro b hmem
  obtain ⟨c, hc, rfl⟩ := List.mem_map.1 hmem
  have hdigit := digit_toDigits hc
  rw [isDigit, decide_eq_true_iff, UInt8.toNat_ofNat']
  omega

theorem ofDecimal_ne_nil (n : Nat) : ofDecimal n ≠ [] :=
  mt List.map_eq_nil_iff.1 Nat.toDigits_ne_nil

/-- A number has no more than `k` digits if it is below the `k`-th power of ten. -/
theorem length_ofDecimal_le_iff {n k : Nat} (hk : 0 < k) : (ofDecimal n).length ≤ k ↔ n < 10 ^ k := by
  rw [ofDecimal, List.length_map]
  exact Nat.length_toDigits_le_iff (by decide) hk

/-- The digits of a number, read back as characters. -/
theorem map_ofDecimal (n : Nat) : (ofDecimal n).map (fun b => Char.ofNat b.toNat) = Nat.toDigits 10 n := by
  rw [ofDecimal, List.map_map]
  refine (List.map_congr_left fun c hc => ?_).trans (List.map_id _)
  have hdigit := digit_toDigits hc
  have hbyte : (UInt8.ofNat c.toNat).toNat = c.toNat := by
    rw [UInt8.toNat_ofNat']
    omega
  rw [Function.comp_apply, hbyte, Char.ofNat_toNat, id]

theorem ofDecimal_injective : Function.Injective ofDecimal := by
  intro m n hsame
  have hdigits : Nat.toDigits 10 m = Nat.toDigits 10 n := by rw [← map_ofDecimal, hsame, map_ofDecimal]
  rw [← Nat.ofDigitChars_ten_toDigits (n := m), hdigits, Nat.ofDigitChars_ten_toDigits]

variable {stop : UInt8} {bs cs : Bytes}

theorem takeWhile_isDigit_ofDecimal (n : Nat) (hstop : isDigit stop = false) :
    (ofDecimal n ++ stop :: bs).takeWhile isDigit = ofDecimal n := by
  rw [List.takeWhile_append_of_pos isDigit_of_mem_ofDecimal, List.takeWhile_cons_of_neg (by simp [hstop]),
    List.append_nil]

/-- The digits of a number end where something else follows. -/
theorem ofDecimal_append_cons_inj {m n : Nat} (hstop : isDigit stop = false)
    (hsame : ofDecimal m ++ stop :: bs = ofDecimal n ++ stop :: cs) : m = n ∧ bs = cs := by
  have hdigits := congrArg (List.takeWhile isDigit) hsame
  rw [takeWhile_isDigit_ofDecimal m hstop, takeWhile_isDigit_ofDecimal n hstop] at hdigits
  obtain rfl := ofDecimal_injective hdigits
  exact ⟨rfl, List.tail_eq_of_cons_eq (List.append_cancel_left hsame)⟩

/-- A minus sign is no digit. -/
theorem minus_cons_ne_ofDecimal (n : Nat) (hstop : isDigit stop = false) : 45 :: bs ≠ ofDecimal n ++ stop :: cs := by
  intro hsame
  have hdigits := congrArg (List.takeWhile isDigit) hsame
  rw [takeWhile_isDigit_ofDecimal n hstop] at hdigits
  exact ofDecimal_ne_nil n hdigits.symm

theorem ofDecimalInt_append_cons_inj {m n : Int} (hstop : isDigit stop = false)
    (hsame : ofDecimalInt m ++ stop :: bs = ofDecimalInt n ++ stop :: cs) : m = n ∧ bs = cs := by
  unfold ofDecimalInt at hsame
  split at hsame <;> split at hsame
  · obtain ⟨habs, hrest⟩ := ofDecimal_append_cons_inj hstop (List.tail_eq_of_cons_eq hsame)
    exact ⟨by omega, hrest⟩
  · exact absurd hsame (minus_cons_ne_ofDecimal _ hstop)
  · exact absurd hsame.symm (minus_cons_ne_ofDecimal _ hstop)
  · obtain ⟨habs, hrest⟩ := ofDecimal_append_cons_inj hstop hsame
    exact ⟨by omega, hrest⟩

end Decimal

end Bytes

end DhtStore
