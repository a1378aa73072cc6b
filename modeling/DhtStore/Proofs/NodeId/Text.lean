import DhtStore.NodeId.Text
import DhtStore.Proofs.Bytes.Hex

namespace DhtStore.NodeId

open Bytes

/-- A character of a text as it is printed: in lower case, and a plus sign as the zero it counts as. -/
def plain (c : Char) : Char := if c = '+' then '0' else c.toLower

/-- Each character is a digit, or a plus sign that begins a piece of two characters. -/
def PiecesSpelled (cs : List Char) : Prop :=
  ∀ i c, cs[i]? = some c → isHexDigit c = true ∨ c = '+' ∧ i % 2 = 0

theorem piecesSpelled_cons_cons {first second : Char} {rest : List Char} :
    PiecesSpelled (first :: second :: rest) ↔
      (isHexDigit first = true ∨ first = '+') ∧ isHexDigit second = true ∧ PiecesSpelled rest := by
  constructor
  · intro hspelled
    refine ⟨(hspelled 0 first rfl).imp_right And.left, ?_, fun i c hc => ?_⟩
    · exact (hspelled 1 second rfl).resolve_right fun hplus => absurd hplus.2 (by decide)
    · exact (hspelled (i + 2) c hc).imp_right fun ⟨hplus, heven⟩ => ⟨hplus, by omega⟩
  · rintro ⟨hfirst, hsecond, hrest⟩ i c hc
    match i with
    | 0 =>
      cases hc
      exact hfirst.imp_right fun hplus => ⟨hplus, rfl⟩
    | 1 =>
      cases hc
      exact .inl hsecond
    | i + 2 => exact (hrest i c hc).imp_right fun ⟨hplus, heven⟩ => ⟨hplus, by omega⟩

/-- A piece is two half bytes, of which a plus sign in front is zero. -/
theorem pieceValue?_eq_some_iff {first second b : UInt8} :
    pieceValue? first second = some b ↔
      ∃ hi lo, (if first = 43 then some 0 else hexValue? first) = some hi ∧
        hexValue? second = some lo ∧ 16 * hi + lo = b := by
  unfold pieceValue?
  split
  · simp
  · simp only [Option.bind_eq_bind, Option.bind_eq_some_iff, Option.pure_def, Option.some_inj]
    constructor
    · rintro ⟨lo, hlo, hi, hhi, hsum⟩
      exact ⟨hi, lo, hhi, hlo, hsum⟩
    · rintro ⟨hi, lo, hhi, hlo, hsum⟩
      exact ⟨lo, hlo, hi, hhi, hsum⟩

theorem pieceValue?_of_not_ascii {first second : UInt8} (hbehind : 128 ≤ first.toNat ∨ 128 ≤ second.toNat) :
    pieceValue? first second = none := by
  refine Option.eq_none_iff_forall_ne_some.2 fun b hvalue => ?_
  obtain ⟨hi, lo, hhi, hlo, -⟩ := pieceValue?_eq_some_iff.1 hvalue
  obtain hfirst | hsecond := hbehind
  · have hplus : first ≠ 43 := by
      rintro rfl
      exact absurd hfirst (by decide)
    rw [if_neg hplus, hexValue?_of_not_ascii hfirst] at hhi
    cases hhi
  · rw [hexValue?_of_not_ascii hsecond] at hlo
    cases hlo

/-- The first character of a piece, as a digit. -/
theorem leadValue?_eq_some_iff {c : Char} {v : UInt8} (hc : c.toNat < 128) :
    (if UInt8.ofNat c.toNat = 43 then some 0 else hexValue? (UInt8.ofNat c.toNat)) = some v ↔
      (isHexDigit c = true ∨ c = '+') ∧ v.toNat < 16 ∧ hexDigit v.toNat = plain c := by
  have hplus : UInt8.ofNat c.toNat = 43 ↔ c = '+' := by
    rw [← UInt8.toNat_inj, UInt8.toNat_ofNat', ← Char.toNat_inj]
    change c.toNat % 256 = 43 ↔ c.toNat = 43
    omega
  by_cases hsign : c = '+'
  · rw [if_pos (hplus.2 hsign), plain, if_pos hsign]
    constructor
    · rintro ⟨⟩
      exact ⟨.inr hsign, by decide, rfl⟩
    · rintro ⟨-, hv, hdigit⟩
      have hzero : v.toNat = 0 := (hexDigit_inj hv (by decide)).1 hdigit
      rw [← UInt8.toNat_inj.1 (hzero.trans (rfl : (0 : UInt8).toNat = 0).symm)]
  · rw [if_neg (mt hplus.1 hsign), plain, if_neg hsign, hexValue?_ofNat_eq_some_iff hc, or_iff_left hsign]

theorem plain_of_isHexDigit {c : Char} (hdigit : isHexDigit c = true) : plain c = c.toLower := by
  refine if_neg ?_
  rintro rfl
  exact absurd hdigit (by decide)

/-- A piece stands for the byte that is printed as it is. -/
theorem pieceValue?_ofNat_eq_some_iff {first second : Char} {b : UInt8} (hfirst : first.toNat < 128)
    (hsecond : second.toNat < 128) :
    pieceValue? (UInt8.ofNat first.toNat) (UInt8.ofNat second.toNat) = some b ↔
      (isHexDigit first = true ∨ first = '+') ∧ isHexDigit second = true ∧
        hexPair b = [plain first, plain second] := by
  rw [pieceValue?_eq_some_iff]
  constructor
  · rintro ⟨hi, lo, hhi, hlo, rfl⟩
    obtain ⟨hlead, hhi, hhigh⟩ := (leadValue?_eq_some_iff hfirst).1 hhi
    obtain ⟨hdigit, hlo, hlow⟩ := (hexValue?_ofNat_eq_some_iff hsecond).1 hlo
    refine ⟨hlead, hdigit, ?_⟩
    rw [hexPair_of_digits hhi hlo, hhigh, hlow, plain_of_isHexDigit hdigit]
  · rintro ⟨hlead, hdigit, hpair⟩
    have hb := b.toNat_lt
    obtain ⟨hhigh, hlow⟩ := List.cons_eq_cons.1 hpair
    have hlow := (List.cons_eq_cons.1 hlow).1
    rw [plain_of_isHexDigit hdigit] at hlow
    have hhi : (UInt8.ofNat (b.toNat / 16)).toNat = b.toNat / 16 := by
      rw [UInt8.toNat_ofNat']
      omega
    have hlo : (UInt8.ofNat (b.toNat % 16)).toNat = b.toNat % 16 := by
      rw [UInt8.toNat_ofNat']
      omega
    refine ⟨UInt8.ofNat (b.toNat / 16), UInt8.ofNat (b.toNat % 16), ?_, ?_, ?_⟩
    · exact (leadValue?_eq_some_iff hfirst).2 ⟨hlead, by omega, by rw [hhi, hhigh]⟩
    · exact (hexValue?_ofNat_eq_some_iff hsecond).2 ⟨hdigit, by omega, by rw [hlo, hlow]⟩
    · refine hexPair_injective ?_
      rw [hexPair_of_digits (by omega) (by omega), hhi, hlo, hexPair]

/-- What is spelled is ASCII. -/
theorem lt_of_spelled {c : Char} (hspelled : isHexDigit c = true ∨ c = '+') : c.toNat < 128 := by
  obtain hdigit | rfl := hspelled
  · have hrange := isHexDigit_iff.1 hdigit
    omega
  · decide

theorem piecesValue?_of_not_ascii {lead : UInt8} (hlead : 128 ≤ lead.toNat) (rest : Bytes) :
    piecesValue? (lead :: rest) = none := by
  cases rest with
  | nil => rfl
  | cons second rest => rw [piecesValue?, pieceValue?_of_not_ascii (.inl hlead)]; rfl

theorem piecesValue?_cons_cons {first second : UInt8} {rest bs : Bytes} :
    piecesValue? (first :: second :: rest) = some bs ↔
      ∃ b others, pieceValue? first second = some b ∧ piecesValue? rest = some others ∧ b :: others = bs := by
  rw [piecesValue?]
  simp only [Option.bind_eq_bind, Option.bind_eq_some_iff, Option.pure_def, Option.some_inj]
  constructor
  · rintro ⟨b, hb, others, hothers, hbs⟩
    exact ⟨b, others, hb, hothers, hbs⟩
  · rintro ⟨b, others, hb, hothers, hbs⟩
    exact ⟨b, hb, others, hothers, hbs⟩

/-- A text in pieces stands for the bytes that are printed as it is. -/
theorem piecesValue?_eq_some_iff (cs : List Char) (bs : Bytes) :
    piecesValue? (cs.flatMap String.utf8EncodeChar) = some bs ↔
      PiecesSpelled cs ∧ bs.flatMap hexPair = cs.map plain := by
  match cs with
  | [] =>
    have hnone : PiecesSpelled [] := fun i c hc => nomatch hc
    rw [List.flatMap_nil, List.map_nil, piecesValue?, Option.some_inj, and_iff_right hnone, eq_comm]
    refine ⟨fun hbs => ?_, fun hprinted => ?_⟩
    · rw [hbs, List.flatMap_nil]
    · exact flatMap_hexPair_injective hprinted
  | [c] =>
    have hodd : bs.flatMap hexPair ≠ [plain c] := fun hprinted => by
      have hlength := congrArg List.length hprinted
      rw [length_flatMap_hexPair, List.length_singleton] at hlength
      omega
    have hrefused : piecesValue? (String.utf8EncodeChar c) = none := by
      obtain ⟨-, hbyte⟩ | ⟨-, lead, rest, hbytes, hlead⟩ := utf8EncodeChar_cases c
      · rw [hbyte, piecesValue?]
      · rw [hbytes, piecesValue?_of_not_ascii hlead]
    rw [List.flatMap_singleton, List.map_singleton, hrefused]
    exact ⟨nofun, fun hboth => absurd hboth.2 hodd⟩
  | first :: second :: rest =>
    rw [List.flatMap_cons, List.flatMap_cons, piecesSpelled_cons_cons]
    obtain ⟨hfirst, hbyte⟩ | ⟨hfirst, lead, more, hbytes, hlead⟩ := utf8EncodeChar_cases first
    · obtain ⟨hsecond, hbyte'⟩ | ⟨hsecond, lead, more, hbytes, hlead⟩ := utf8EncodeChar_cases second
      · rw [hbyte, hbyte', List.singleton_append, List.singleton_append, piecesValue?_cons_cons]
        simp only [pieceValue?_ofNat_eq_some_iff hfirst hsecond, piecesValue?_eq_some_iff rest]
        constructor
        · rintro ⟨b, others, ⟨hlead, hdigit, hpair⟩, ⟨hrest, hprinted⟩, rfl⟩
          refine ⟨⟨hlead, hdigit, hrest⟩, ?_⟩
          rw [List.flatMap_cons, hpair, hprinted]
          rfl
        · rintro ⟨⟨hlead, hdigit, hrest⟩, hprinted⟩
          cases bs with
          | nil => cases hprinted
          | cons b others =>
            obtain ⟨hpair, hothers⟩ : hexPair b = [plain first, plain second] ∧
                others.flatMap hexPair = rest.map plain := List.append_inj hprinted rfl
            exact ⟨b, others, ⟨hlead, hdigit, hpair⟩, ⟨hrest, hothers⟩, rfl⟩
      · rw [hbyte, hbytes, List.singleton_append, List.cons_append, piecesValue?_cons_cons,
          pieceValue?_of_not_ascii (.inr hlead)]
        refine ⟨nofun, fun ⟨⟨_, hdigit, _⟩, _⟩ => ?_⟩
        exact absurd (lt_of_spelled (.inl hdigit)) (Nat.not_lt_of_le hsecond)
    · rw [hbytes, List.cons_append, piecesValue?_of_not_ascii hlead]
      refine ⟨nofun, fun ⟨⟨hspelled, _, _⟩, _⟩ => ?_⟩
      exact absurd (lt_of_spelled hspelled) (Nat.not_lt_of_le hfirst)

theorem exists_hexDigit_eq_plain {c : Char} (hspelled : isHexDigit c = true ∨ c = '+') :
    ∃ v : UInt8, v.toNat < 16 ∧ hexDigit v.toNat = plain c := by
  obtain hdigit | rfl := hspelled
  · rw [plain_of_isHexDigit hdigit]
    exact exists_hexDigit_eq hdigit
  · exact ⟨0, by decide, rfl⟩

/-- Pieces always stand for bytes. -/
theorem exists_bytes_of_spelled (cs : List Char) (hspelled : PiecesSpelled cs) (heven : cs.length % 2 = 0) :
    ∃ bs : Bytes, bs.flatMap hexPair = cs.map plain := by
  match cs with
  | [] => exact ⟨[], rfl⟩
  | [_] => cases heven
  | first :: second :: rest =>
    obtain ⟨hlead, hdigit, hrest⟩ := piecesSpelled_cons_cons.1 hspelled
    obtain ⟨hi, hhi, hhigh⟩ := exists_hexDigit_eq_plain hlead
    obtain ⟨lo, hlo, hlow⟩ := exists_hexDigit_eq_plain (.inl hdigit)
    rw [List.length_cons, List.length_cons] at heven
    obtain ⟨bs, hprinted⟩ := exists_bytes_of_spelled rest hrest (by omega)
    refine ⟨(16 * hi + lo) :: bs, ?_⟩
    rw [List.flatMap_cons, hexPair_of_digits hhi hlo, hhigh, hlow, hprinted]
    rfl

/-- The texts that are read as ids. -/
def IsSpelling (s : String) : Prop := s.length = 40 ∧ PiecesSpelled s.toList

theorem toList_toText (id : NodeId) : id.toText.toList = id.bytes.flatMap hexPair := by
  rw [toText, toHex, String.toList_ofList]

theorem length_toText (id : NodeId) : id.toText.length = 40 := by
  rw [← String.length_toList, toList_toText, length_flatMap_hexPair, id.length_bytes]

theorem length_ofText_of_spelled {s : String} (hspelled : PiecesSpelled s.toList) :
    (Bytes.ofText s).length = s.length := by
  rw [ofText_eq_ofAscii, ofAscii, List.length_map, String.length_toList]
  intro c hmem
  obtain ⟨i, hi⟩ := List.getElem?_of_mem hmem
  exact lt_of_spelled ((hspelled i c hi).imp_right And.left)

/-- A text is read as the id that is printed as the text, with lower case digits and a zero for each
    plus sign. -/
theorem ofText_eq_ok_iff {s : String} {id : NodeId} :
    ofText s = .ok id ↔ IsSpelling s ∧ id.toText = s.map plain := by
  have hread : (piecesValue? (Bytes.ofText s)).bind ofBytes? = some id ↔
      PiecesSpelled s.toList ∧ id.toText = s.map plain := by
    rw [Option.bind_eq_some_iff, ← String.toList_inj, toList_toText, String.toList_map,
      ← piecesValue?_eq_some_iff, ← ofText_eq]
    simp [ofBytes?_eq_some_iff]
  constructor
  · intro hok
    unfold ofText at hok
    simp only at hok
    split at hok
    · split at hok
      · next hvalue =>
        cases hok
        obtain ⟨hspelled, hprinted⟩ := hread.1 hvalue
        refine ⟨⟨?_, hspelled⟩, hprinted⟩
        rw [← String.length_toList, ← List.length_map plain, ← String.toList_map, ← hprinted,
          String.length_toList, length_toText]
      · cases hok
    · cases hok
  · rintro ⟨⟨hlength, hspelled⟩, hprinted⟩
    have hsize : (Bytes.ofText s).length = 40 := by
      rw [length_ofText_of_spelled hspelled, hlength]
    simp only [ofText, hsize, if_true, hread.2 ⟨hspelled, hprinted⟩]

theorem exists_id_of_isSpelling {s : String} (hspelling : IsSpelling s) :
    ∃ id : NodeId, id.toText = s.map plain := by
  obtain ⟨hlength, hspelled⟩ := hspelling
  have hchars : s.toList.length = 40 := by rw [String.length_toList, hlength]
  obtain ⟨bs, hprinted⟩ := exists_bytes_of_spelled s.toList hspelled (by omega)
  have hbytes := congrArg List.length hprinted
  rw [length_flatMap_hexPair, List.length_map, hchars] at hbytes
  refine ⟨⟨⟨bs, by omega⟩⟩, ?_⟩
  rw [← String.toList_inj, toList_toText, String.toList_map]
  exact hprinted

/-- An id is printed in digits of lower case. -/
theorem digit_of_mem_toText {id : NodeId} {c : Char} (hmem : c ∈ id.toText.toList) :
    isHexDigit c = true ∧ plain c = c := by
  have hall : ∀ n : Fin 16, isHexDigit (hexDigit n) = true ∧ plain (hexDigit n) = hexDigit n := by decide
  rw [toList_toText] at hmem
  obtain ⟨b, -, hpair⟩ := List.mem_flatMap.1 hmem
  have hb := b.toNat_lt
  obtain rfl | hlow := List.mem_cons.1 hpair
  · exact hall ⟨b.toNat / 16, by omega⟩
  · obtain rfl := List.mem_singleton.1 hlow
    exact hall ⟨b.toNat % 16, by omega⟩

theorem ofText_toText (id : NodeId) : ofText id.toText = .ok id := by
  refine ofText_eq_ok_iff.2 ⟨⟨length_toText id, fun i c hc => ?_⟩, ?_⟩
  · exact .inl (digit_of_mem_toText (List.mem_of_getElem? hc)).1
  · rw [← String.toList_inj, String.toList_map]
    exact ((List.map_congr_left fun c hmem => (digit_of_mem_toText hmem).2).trans (List.map_id _)).symm

/-- No plus sign is left where printing only changes the case. -/
theorem map_plain_eq_toLower_iff {s : String} (hspelling : IsSpelling s) :
    s.map plain = s.toLower ↔ s.toList.all isHexDigit = true := by
  change s.map plain = s.map Char.toLower ↔ _
  rw [← String.toList_inj, String.toList_map, String.toList_map, List.map_inj_left, List.all_eq_true]
  refine forall₂_congr fun c hmem => ⟨fun hplain => ?_, plain_of_isHexDigit⟩
  obtain ⟨i, hi⟩ := List.getElem?_of_mem hmem
  refine (hspelling.2 i c hi).resolve_right ?_
  rintro ⟨rfl, -⟩
  exact absurd hplain (by decide)

theorem isSpelling_of_digits {s : String} (hlength : s.length = 40) (hdigits : s.toList.all isHexDigit = true) :
    IsSpelling s :=
  ⟨hlength, fun _ c hc => .inl (List.all_eq_true.1 hdigits c (List.mem_of_getElem? hc))⟩

/-- The texts that are read as ids are those of 40 characters in pieces of two, a digit or a plus sign and a
    digit; a text is printed again in lower case exactly if it has 40 digits and no plus sign. What is printed
    is read again, and two texts are one id exactly if they differ in case only, and in plus signs for zeros. -/
theorem texts_read_as_ids (s : String) :
    (∀ id, ofText s = .ok id ↔ IsSpelling s ∧ id.toText = s.map plain) ∧
    ((∃ id, ofText s = .ok id) ↔ IsSpelling s) ∧
    ((∃ id, ofText s = .ok id ∧ id.toText = s.toLower) ↔ s.length = 40 ∧ s.toList.all isHexDigit = true) ∧
    (∀ id : NodeId, ofText id.toText = .ok id) ∧
    ∀ t, (∃ id, ofText s = .ok id ∧ ofText t = .ok id) ↔
      IsSpelling s ∧ IsSpelling t ∧ s.map plain = t.map plain := by
  refine ⟨fun id => ofText_eq_ok_iff, ?accepted, ?lower, ofText_toText, fun t => ?same⟩
  case accepted =>
    constructor
    · rintro ⟨id, hok⟩
      exact (ofText_eq_ok_iff.1 hok).1
    · intro hspelling
      obtain ⟨id, hprinted⟩ := exists_id_of_isSpelling hspelling
      exact ⟨id, ofText_eq_ok_iff.2 ⟨hspelling, hprinted⟩⟩
  case lower =>
    constructor
    · rintro ⟨id, hok, hlower⟩
      obtain ⟨hspelling, hprinted⟩ := ofText_eq_ok_iff.1 hok
      exact ⟨hspelling.1, (map_plain_eq_toLower_iff hspelling).1 (hprinted.symm.trans hlower)⟩
    · rintro ⟨hlength, hdigits⟩
      have hspelling := isSpelling_of_digits hlength hdigits
      obtain ⟨id, hprinted⟩ := exists_id_of_isSpelling hspelling
      refine ⟨id, ofText_eq_ok_iff.2 ⟨hspelling, hprinted⟩, ?_⟩
      rw [hprinted, map_plain_eq_toLower_iff hspelling]
      exact hdigits
  case same =>
    constructor
    · rintro ⟨id, hs, ht⟩
      obtain ⟨hspelling, hprinted⟩ := ofText_eq_ok_iff.1 hs
      obtain ⟨hspelling', hprinted'⟩ := ofText_eq_ok_iff.1 ht
      exact ⟨hspelling, hspelling', hprinted.symm.trans hprinted'⟩
    · rintro ⟨hspelling, hspelling', hplain⟩
      obtain ⟨id, hprinted⟩ := exists_id_of_isSpelling hspelling
      exact ⟨id, ofText_eq_ok_iff.2 ⟨hspelling, hprinted⟩,
        ofText_eq_ok_iff.2 ⟨hspelling', hprinted.trans hplain⟩⟩

/-- A text with a plus sign in it is read, and printed with a zero instead. -/
theorem sign_read_as_digit :
    let s := "+5f96f6f38320f0f33959cb4d3d656452117aadb"
    let t := "05f96f6f38320f0f33959cb4d3d656452117aadb"
    ¬ s.toList.all isHexDigit = true ∧ s.map Char.toLower ≠ t.map Char.toLower ∧
      ∃ id, ofText s = .ok id ∧ ofText t = .ok id ∧ id.toText = t ∧ id.toText ≠ s.toLower := by
  let octets : Octets 20 :=
    ⟨[0x05, 0xf9, 0x6f, 0x6f, 0x38, 0x32, 0x0f, 0x0f, 0x33, 0x95, 0x9c, 0xb4, 0xd3, 0xd6, 0x56, 0x45,
      0x21, 0x17, 0xaa, 0xdb], rfl⟩
  intro s t
  refine ⟨by decide, by decide +kernel, ⟨octets⟩, ?_⟩
  decide +kernel

end DhtStore.NodeId
