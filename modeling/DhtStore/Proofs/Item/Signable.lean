import DhtStore.Proofs.Bytes
import DhtStore.Proofs.Classification

namespace DhtStore

/-- A byte string behind its length can be told from what follows. -/
theorem immutableEncoding_append_inj {v w rest rest' : Bytes}
    (hsame : immutableEncoding v ++ rest = immutableEncoding w ++ rest') : v = w ∧ rest = rest' := by
  rw [immutableEncoding, immutableEncoding, List.append_assoc, List.append_assoc, List.cons_append,
    List.cons_append] at hsame
  obtain ⟨hlength, hbytes⟩ := Bytes.ofDecimal_append_cons_inj (by decide) hsame
  exact List.append_inj hbytes hlength

theorem immutableEncoding_injective : Function.Injective immutableEncoding := by
  intro v w hsame
  have happend : immutableEncoding v ++ [] = immutableEncoding w ++ [] := congrArg (· ++ []) hsame
  exact (immutableEncoding_append_inj happend).1

/-- What is signed of a salt. -/
def saltEncoding : Option Bytes → Bytes
  | none => []
  | some salt => Bytes.ofAscii "4:salt" ++ immutableEncoding salt

/-- What is signed of sequence number and value, behind the salt. -/
def versionEncoding (seq : Seq) (value : Bytes) : Bytes :=
  Bytes.ofAscii "3:seqi" ++ Bytes.ofDecimalInt seq.toInt ++ 101 :: Bytes.ofAscii "1:v" ++ immutableEncoding value

theorem signable_eq (seq : Seq) (value : Bytes) (salt : Option Bytes) :
    signable seq value salt = saltEncoding salt ++ versionEncoding seq value := by
  have he : Bytes.ofAscii "e1:v" = 101 :: Bytes.ofAscii "1:v" := rfl
  cases salt <;>
    simp only [signable, saltEncoding, versionEncoding, immutableEncoding, he, List.append_assoc, List.cons_append,
      List.nil_append]

theorem versionEncoding_inj {seq seq' : Seq} {value value' : Bytes}
    (hsame : versionEncoding seq value = versionEncoding seq' value') : seq = seq' ∧ value = value' := by
  simp only [versionEncoding, List.append_assoc, List.cons_append] at hsame
  obtain ⟨hseq, hrest⟩ := Bytes.ofDecimalInt_append_cons_inj (by decide) (List.append_cancel_left hsame)
  exact ⟨Int64.toInt_inj.1 hseq, immutableEncoding_injective (List.append_cancel_left hrest)⟩

/-- No salt, not even an empty one, can be mistaken for its absence. -/
theorem saltEncoding_some_append_ne (salt rest : Bytes) (seq : Seq) (value : Bytes) :
    saltEncoding (some salt) ++ rest ≠ versionEncoding seq value := by
  intro hsame
  have hfirst : (some 52 : Option UInt8) = some 51 := congrArg List.head? hsame
  exact absurd hfirst (by decide)

theorem saltEncoding_append_inj {salt salt' : Option Bytes} {seq seq' : Seq} {value value' : Bytes}
    (hsame : saltEncoding salt ++ versionEncoding seq value = saltEncoding salt' ++ versionEncoding seq' value') :
    salt = salt' ∧ versionEncoding seq value = versionEncoding seq' value' := by
  cases salt with
  | none =>
    cases salt' with
    | none => exact ⟨rfl, hsame⟩
    | some salt' => exact absurd hsame.symm (saltEncoding_some_append_ne salt' _ seq value)
  | some salt =>
    cases salt' with
    | none => exact absurd hsame (saltEncoding_some_append_ne salt _ seq' value')
    | some salt' =>
      rw [saltEncoding, saltEncoding, List.append_assoc, List.append_assoc] at hsame
      obtain ⟨rfl, hrest⟩ := immutableEncoding_append_inj (List.append_cancel_left hsame)
      exact ⟨rfl, hrest⟩

theorem signable_inj {seq seq' : Seq} {value value' : Bytes} {salt salt' : Option Bytes} :
    signable seq value salt = signable seq' value' salt' ↔ seq = seq' ∧ value = value' ∧ salt = salt' := by
  constructor
  · intro hsame
    rw [signable_eq, signable_eq] at hsame
    obtain ⟨hsalt, hversion⟩ := saltEncoding_append_inj hsame
    obtain ⟨hseq, hvalue⟩ := versionEncoding_inj hversion
    exact ⟨hseq, hvalue, hsalt⟩
  · rintro ⟨rfl, rfl, rfl⟩
    rfl

/-- A signature that verifies for two different messages. -/
def Ed25519.Ambiguous (key signature message message' : Bytes) : Prop :=
  message ≠ message' ∧ verifies key message signature = true ∧ verifies key message' signature = true

theorem MutableItem.exists_verified_iff {target : NodeId} {key : PublicKey} {signature : Signature} {seq : Seq}
    {value : Bytes} {salt : Option Bytes} :
    (∃ item, MutableItem.verified target key.bytes value seq signature.bytes salt = .ok item) ↔
      Ed25519.verifies key.bytes (signable seq value salt) signature.bytes = true := by
  constructor
  · rintro ⟨item, hverified⟩
    obtain ⟨-, -, -, -, -, -, hverifies⟩ := MutableItem.verified_eq_ok_iff.1 hverified
    exact hverifies
  · intro hverifies
    exact ⟨⟨target, key, seq, value, signature, salt⟩,
      MutableItem.verified_eq_ok_iff.2 ⟨rfl, rfl, rfl, rfl, rfl, rfl, hverifies⟩⟩

/-- The bytes an author signs tell the sequence number, the value and the salt, and an empty salt from none. So a
    signature serves for one item only: that it is accepted for the fields of two, wherever they are stored, takes a
    signature that verifies for two different messages. -/
theorem signed_bytes_tell_fields :
    (∀ (seq seq' : Seq) (value value' : Bytes) (salt salt' : Option Bytes),
      signable seq value salt = signable seq' value' salt' ↔ seq = seq' ∧ value = value' ∧ salt = salt') ∧
    ∀ (key : PublicKey) (signature : Signature) (target target' : NodeId) (seq seq' : Seq) (value value' : Bytes)
      (salt salt' : Option Bytes),
      ((∃ item, MutableItem.verified target key.bytes value seq signature.bytes salt = .ok item) ∧
        (∃ item, MutableItem.verified target' key.bytes value' seq' signature.bytes salt' = .ok item) ∧
        ¬ (seq = seq' ∧ value = value' ∧ salt = salt')) ↔
      Ed25519.Ambiguous key.bytes signature.bytes (signable seq value salt) (signable seq' value' salt') := by
  refine ⟨fun _ _ _ _ _ _ => signable_inj, fun key signature target target' seq seq' value value' salt salt' => ?_⟩
  rw [MutableItem.exists_verified_iff, MutableItem.exists_verified_iff, ← signable_inj]
  constructor
  · rintro ⟨hfirst, hsecond, hdiffer⟩
    exact ⟨hdiffer, hfirst, hsecond⟩
  · rintro ⟨hdiffer, hfirst, hsecond⟩
    exact ⟨hfirst, hsecond, hdiffer⟩

end DhtStore
