import DhtStore.Bytes.Hex
import Mathlib.Data.Fintype.Basic

namespace DhtStore.Bytes

section Ascii

theorem ofText_eq (s : String) : ofText s = s.toList.flatMap String.utf8EncodeChar := by
  have hencoded : s.toUTF8 = s.toList.utf8Encode := String.utf8Encode_toList.symm
  rw [ofText, hencoded, List.utf8Encode, List.data_toByteArray]

/-- An ASCII character is one byte, and any other begins with a byte behind the ASCII range. -/
theorem utf8EncodeChar_cases (c : Char) :
    (c.toNat < 128 ∧ String.utf8EncodeChar c = [UInt8.ofNat c.toNat]) ∨
      (128 ≤ c.toNat ∧ ∃ lead rest, String.utf8EncodeChar c = lead :: rest ∧ 128 ≤ lead.toNat) := by
  by_cases hascii : c.val.toNat ≤ 127
  · refine .inl ⟨Nat.lt_succ_of_le hascii, ?_⟩
    simp only [String.utf8EncodeChar, hascii, if_true]
    rfl
  · refine .inr ⟨Nat.lt_of_not_le hascii, ?_⟩
    simp only [String.utf8EncodeChar, hascii, if_false]
    split
    · exact ⟨_, _, rfl, by rw [UInt8.toNat_ofNat']; omega⟩
    · split
      · exact ⟨_, _, rfl, by rw [UInt8.toNat_ofNat']; omega⟩
      · exact ⟨_, _, rfl, by rw [UInt8.toNat_ofNat']; omega⟩

/-- The bytes of a text of ASCII characters are the codes of these. -/
theorem ofText_eq_ofAscii {s : String} (hascii : ∀ c ∈ s.toList, c.toNat < 128) : ofText s = ofAscii s := by
  rw [ofText_eq, ofAscii, List.map_eq_flatMap]
  refine List.flatMap_congr fun c hmem => ?_
  obtain ⟨-, hbyte⟩ | ⟨hbehind, -⟩ := utf8EncodeChar_cases c
  · exact hbyte
  · exact absurd (hascii c hmem) (Nat.not_lt_of_le hbehind)

end Ascii

section Digits

/-- Whether a character is a hexadecimal digit, of either case. -/
def isHexDigit (c : Char) : Bool :=
  c.isDigit || decide ('a' ≤ c ∧ c ≤ 'f') || decide ('A' ≤ c ∧ c ≤ 'F')

theorem isHexDigit_iff {c : Char} : isHexDigit c = true ↔
    48 ≤ c.toNat ∧ c.toNat ≤ 57 ∨ 97 ≤ c.toNat ∧ c.toNat ≤ 102 ∨ 65 ≤ c.toNat ∧ c.toNat ≤ 70 := by
  rw [isHexDigit, Bool.or_eq_true, Bool.or_eq_true, Char.isDigit_iff_toNat, decide_eq_true_iff,
    decide_eq_true_iff, or_assoc]
  rfl

theorem hexDigit_inj {m n : Nat} (hm : m < 16) (hn : n < 16) : hexDigit m = hexDigit n ↔ m = n := by
  have hall : ∀ m n : Fin 16, hexDigit m = hexDigit n → m = n := by decide
  exact ⟨fun hsame => congrArg Fin.val (hall ⟨m, hm⟩ ⟨n, hn⟩ hsame), congrArg hexDigit⟩

theorem hexValue?_of_not_ascii {b : UInt8} (hb : 128 ≤ b.toNat) : hexValue? b = none := by
  simp only [hexValue?, UInt8.le_iff_toNat_le, UInt8.reduceToNat]
  rw [if_neg (by omega), if_neg (by omega), if_neg (by omega)]

theorem hexValue?_lt {b v : UInt8} (hvalue : hexValue? b = some v) : v.toNat < 16 := by
  have hall : ∀ n : Fin 128, (hexValue? (UInt8.ofNat n)).all (fun v => decide (v.toNat < 16)) = true := by
    decide
  by_cases hascii : b.toNat < 128
  · have hbyte := hall ⟨b.toNat, hascii⟩
    rw [UInt8.ofNat_toNat, hvalue] at hbyte
    exact of_decide_eq_true hbyte
  · rw [hexValue?_of_not_ascii (Nat.le_of_not_lt hascii)] at hvalue
    cases hvalue

theorem map_hexValue?_ofNat {c : Char} (hc : c.toNat < 128) :
    (hexValue? (UInt8.ofNat c.toNat)).map (fun v => hexDigit v.toNat) =
      if isHexDigit c then some c.toLower else none := by
  have hall : ∀ n : Fin 128, (hexValue? (UInt8.ofNat n)).map (fun v => hexDigit v.toNat) =
      if isHexDigit (Char.ofNat n) then some (Char.ofNat n).toLower else none := by
    decide
  have hchar := hall ⟨c.toNat, hc⟩
  rwa [Char.ofNat_toNat] at hchar

/-- What an ASCII character stands for is written as the character itself, in lower case. -/
theorem hexValue?_ofNat_eq_some_iff {c : Char} {v : UInt8} (hc : c.toNat < 128) :
    hexValue? (UInt8.ofNat c.toNat) = some v ↔
      isHexDigit c = true ∧ v.toNat < 16 ∧ hexDigit v.toNat = c.toLower := by
  have hchar := map_hexValue?_ofNat hc
  constructor
  · intro hvalue
    rw [hvalue, Option.map_some] at hchar
    by_cases hdigit : isHexDigit c = true
    · rw [if_pos hdigit] at hchar
      exact ⟨hdigit, hexValue?_lt hvalue, Option.some.inj hchar⟩
    · rw [if_neg hdigit] at hchar
      cases hchar
  · rintro ⟨hdigit, hv, hlower⟩
    rw [if_pos hdigit] at hchar
    obtain ⟨w, hvalue, hw⟩ := Option.map_eq_some_iff.1 hchar
    have hsame := (hexDigit_inj (hexValue?_lt hvalue) hv).1 (hw.trans hlower.symm)
    rw [hvalue, UInt8.toNat_inj.1 hsame]

/-- Each digit stands for a number. -/
theorem exists_hexDigit_eq {c : Char} (hdigit : isHexDigit c = true) :
    ∃ v : UInt8, v.toNat < 16 ∧ hexDigit v.toNat = c.toLower := by
  have hrange := isHexDigit_iff.1 hdigit
  have hchar := map_hexValue?_ofNat (c := c) (by omega)
  rw [if_pos hdigit] at hchar
  obtain ⟨v, hvalue, hv⟩ := Option.map_eq_some_iff.1 hchar
  exact ⟨v, hexValue?_lt hvalue, hv⟩

theorem hexPair_injective : Function.Injective hexPair := by
  intro a b hsame
  have ha := a.toNat_lt
  have hb := b.toNat_lt
  obtain ⟨hhigh, hlow⟩ := List.cons_eq_cons.1 hsame
  have hhigh := (hexDigit_inj (by omega) (by omega)).1 hhigh
  have hlow := (hexDigit_inj (by omega) (by omega)).1 (List.cons_eq_cons.1 hlow).1
  exact UInt8.toNat_inj.1 (by omega)

/-- A byte is written as the digits of its two halves. -/
theorem hexPair_of_digits {hi lo : UInt8} (hhi : hi.toNat < 16) (hlo : lo.toNat < 16) :
    hexPair (16 * hi + lo) = [hexDigit hi.toNat, hexDigit lo.toNat] := by
  have hsum : (16 * hi + lo).toNat = 16 * hi.toNat + lo.toNat := by
    have hsixteen : (16 : UInt8).toNat = 16 := rfl
    rw [UInt8.toNat_add, UInt8.toNat_mul, hsixteen]
    omega
  have hhigh : (16 * hi.toNat + lo.toNat) / 16 = hi.toNat := by omega
  have hlow : (16 * hi.toNat + lo.toNat) % 16 = lo.toNat := by omega
  rw [hexPair, hsum, hhigh, hlow]

theorem length_flatMap_hexPair (bs : Bytes) : (bs.flatMap hexPair).length = 2 * bs.length := by
  induction bs with
  | nil => rfl
  | cons b bs ih =>
    rw [List.flatMap_cons, List.length_append, ih, List.length_cons, hexPair, List.length_cons,
      List.length_singleton]
    omega

theorem flatMap_hexPair_injective {bs cs : Bytes} (hsame : bs.flatMap hexPair = cs.flatMap hexPair) :
    bs = cs := by
  induction bs generalizing cs with
  | nil =>
    have hlength := congrArg List.length hsame
    rw [length_flatMap_hexPair, length_flatMap_hexPair, List.length_nil] at hlength
    exact (List.length_eq_zero_iff.1 (by omega)).symm
  | cons b bs ih =>
    cases cs with
    | nil => cases hsame
    | cons c cs =>
      rw [List.flatMap_cons, List.flatMap_cons] at hsame
      obtain ⟨hhead, htail⟩ := List.append_inj hsame rfl
      rw [hexPair_injective hhead, ih htail]

end Digits

end DhtStore.Bytes
