import DhtStore.Proofs.Hash.Crc32c
import DhtStore.TokenSecrets

namespace DhtStore

namespace WriteToken

/-- The bits in which two tokens differ, as a token. -/
def xor (t u : WriteToken) : WriteToken := ⟨List.zipWith (· ^^^ ·) t.bytes u.bytes⟩

theorem xor_xor_cancel {t u : WriteToken} (hlength : t.bytes.length = u.bytes.length) : t.xor (t.xor u) = u :=
  congrArg mk (Bytes.zipWith_xor_cancel_left hlength)

end WriteToken

namespace IpAddress

/-- The register of the checksum behind an address, where the secret follows. -/
def register (ip : IpAddress) : UInt32 := Crc32c.run 0xFFFFFFFF ip.bytes

/-- The bits in which the tokens of two addresses differ. -/
def offset (a b : IpAddress) : WriteToken := (a.tokenUnder default).xor (b.tokenUnder default)

variable {a b : IpAddress}

theorem length_tokenUnder (ip : IpAddress) (secret : Secret) : (ip.tokenUnder secret).bytes.length = 4 :=
  Bytes.length_ofNatBE ..

theorem tokenUnder_eq (ip : IpAddress) (secret : Secret) : ip.tokenUnder secret =
    ⟨Bytes.ofNatBE 4 (Crc32c.run ip.register secret.bytes ^^^ 0xFFFFFFFF).toNat⟩ := by
  rw [tokenUnder, Crc32c.checksum_eq, Crc32c.run_append, register]

theorem tokenUnder_eq_iff {secret : Secret} {w : UInt32} :
    a.tokenUnder secret = ⟨Bytes.ofNatBE 4 w.toNat⟩ ↔
      Crc32c.run a.register secret.bytes = w ^^^ 0xFFFFFFFF := by
  have hinverse : w ^^^ 0xFFFFFFFF ^^^ 0xFFFFFFFF = w := by
    rw [UInt32.xor_assoc, UInt32.xor_self, UInt32.xor_zero]
  rw [tokenUnder_eq, WriteToken.mk.injEq, Bytes.ofNatBE_inj (UInt32.toNat_lt _) (UInt32.toNat_lt _),
    UInt32.toNat_inj, ← UInt32.xor_left_inj (0xFFFFFFFF : UInt32) (b := w ^^^ 0xFFFFFFFF), hinverse]

theorem xor_tokenUnder_eq (a b : IpAddress) (secret : Secret) :
    (a.tokenUnder secret).xor (b.tokenUnder secret) =
      ⟨Bytes.ofNatBE 4 (Crc32c.bitStep^[160] (a.register ^^^ b.register)).toNat⟩ := by
  have hdifference := Crc32c.checksum_append_xor a.bytes b.bytes secret.bytes
  rw [secret.length_bytes] at hdifference
  rw [register, register, ← hdifference, UInt32.toNat_xor, Bytes.ofNatBE_xor]
  rfl

/-- The tokens of two addresses differ by the same bits under all secrets. -/
theorem xor_tokenUnder (a b : IpAddress) (secret : Secret) :
    (a.tokenUnder secret).xor (b.tokenUnder secret) = a.offset b := by
  rw [offset, xor_tokenUnder_eq, xor_tokenUnder_eq]

theorem tokenUnder_xor_offset (a b : IpAddress) (secret : Secret) :
    (a.tokenUnder secret).xor (a.offset b) = b.tokenUnder secret := by
  rw [← xor_tokenUnder a b secret]
  exact WriteToken.xor_xor_cancel ((length_tokenUnder a secret).trans (length_tokenUnder b secret).symm)

/-- Whatever the first bytes of the secret are, any token is the token of an address under exactly one choice of the
    last four. So who knows no token can rule out none. -/
theorem existsUnique_tokenUnder_append (ip : IpAddress) (front : Octets 16) (t : Octets 4) :
    ∃! back : Octets 4, ip.tokenUnder (front.append back) = ⟨t.bytes⟩ := by
  obtain ⟨v, hbound, hv⟩ := Bytes.exists_ofNatBE_eq t.bytes
  rw [t.length_bytes] at hbound hv
  let w := UInt32.ofNat v
  have hw : Bytes.ofNatBE 4 w.toNat = t.bytes := by rw [UInt32.toNat_ofNat_of_lt' hbound, hv]
  have htoken (back : Octets 4) : ip.tokenUnder (front.append back) = ⟨t.bytes⟩ ↔
      Crc32c.run (Crc32c.run ip.register front.bytes) back.bytes = w ^^^ 0xFFFFFFFF := by
    rw [← hw, tokenUnder_eq_iff, Octets.append, Crc32c.run_append]
  obtain ⟨bs, hlength, hrun⟩ := Crc32c.exists_run_eq (Crc32c.run ip.register front.bytes) (w ^^^ 0xFFFFFFFF)
  refine ⟨⟨bs, hlength⟩, (htoken _).2 hrun, fun back hback => Octets.ext ?_⟩
  exact Crc32c.eq_of_run_eq _ back.length_bytes hlength (((htoken back).1 hback).trans hrun.symm)

theorem register_v4_injective : Function.Injective fun host : Octets 4 => register (.v4 host) :=
  fun m n hsame => Octets.ext (Crc32c.eq_of_run_eq _ m.length_bytes n.length_bytes hsame)

/-- Different addresses in version 4 have different tokens. -/
theorem offset_v4_eq_zero_iff {m n : Octets 4} : (v4 m).offset (v4 n) = ⟨List.replicate 4 0⟩ ↔ m = n := by
  have hzero : (⟨List.replicate 4 0⟩ : WriteToken) = ⟨Bytes.ofNatBE 4 (0 : UInt32).toNat⟩ := rfl
  have hfixed : Crc32c.bitStep^[160] 0 = 0 := Function.iterate_fixed rfl 160
  rw [offset, xor_tokenUnder_eq, hzero, WriteToken.mk.injEq,
    Bytes.ofNatBE_inj (UInt32.toNat_lt _) (UInt32.toNat_lt _), UInt32.toNat_inj]
  constructor
  · intro hsame
    rw [← hfixed] at hsame
    exact register_v4_injective (UInt32.xor_eq_zero_iff.1 (Crc32c.bitStep_injective.iterate 160 hsame))
  · rintro rfl
    rw [UInt32.xor_self, hfixed]

/-- The token of an address gives away that of any other one, without the secret: the two differ by the same bits
    under all secrets. But this is the only rule that leads from the one to the other. And between different
    addresses in version 4 these bits are never all zero, so that no token serves two of them as it is. -/
theorem tokens_transfer_by_offset :
    (∀ a b : IpAddress, ∀ secret, (a.tokenUnder secret).xor (b.tokenUnder secret) = a.offset b) ∧
      (∀ (a b : IpAddress) (f : WriteToken → WriteToken),
        (∀ secret, f (a.tokenUnder secret) = b.tokenUnder secret) ↔
          ∀ t : Octets 4, f ⟨t.bytes⟩ = WriteToken.xor ⟨t.bytes⟩ (a.offset b)) ∧
      ∀ m n, (v4 m).offset (v4 n) = ⟨List.replicate 4 0⟩ ↔ m = n := by
  refine ⟨xor_tokenUnder, fun a b f => ⟨fun hrule t => ?_, fun hrule secret => ?_⟩, fun _ _ => offset_v4_eq_zero_iff⟩
  · -- Any four bytes are the token of `a` under some secret, which fixes the rule there.
    obtain ⟨back, htoken, -⟩ := existsUnique_tokenUnder_append a default t
    rw [← htoken, hrule, tokenUnder_xor_offset]
  · rw [← tokenUnder_xor_offset a b secret]
    exact hrule ⟨(a.tokenUnder secret).bytes, length_tokenUnder a secret⟩

/-- Who has the token of 127.0.0.1 has that of 127.0.0.2 too, by a rule that serves under all secrets. -/
theorem token_of_neighbour_derived :
    let a : IpAddress := .v4 ⟨[127, 0, 0, 1], rfl⟩
    let b : IpAddress := .v4 ⟨[127, 0, 0, 2], rfl⟩
    let f : WriteToken → WriteToken := (·.xor ⟨[0x17, 0x1E, 0x86, 0x37]⟩)
    a ≠ b ∧ ∀ secret, f (a.tokenUnder secret) = b.tokenUnder secret := by
  intro a b f
  have hoffset : a.offset b = ⟨[0x17, 0x1E, 0x86, 0x37]⟩ := by decide +kernel
  refine ⟨by decide, fun secret => ?_⟩
  rw [← tokenUnder_xor_offset a b secret, hoffset]

end IpAddress

end DhtStore
