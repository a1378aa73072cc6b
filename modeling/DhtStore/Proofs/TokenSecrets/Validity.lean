import DhtStore.Proofs.TokenSecrets

namespace DhtStore

namespace IpAddress

variable {a b : IpAddress} {m n : Octets 4} {secret : Secret}

/-- Whether two addresses share their token does not depend on the secret. -/
theorem tokenUnder_inj : a.tokenUnder secret = b.tokenUnder secret ↔ a.register = b.register := by
  rw [tokenUnder_eq, tokenUnder_eq, WriteToken.mk.injEq,
    Bytes.ofNatBE_inj (UInt32.toNat_lt _) (UInt32.toNat_lt _), UInt32.toNat_inj, UInt32.xor_left_inj]
  exact (Crc32c.run_injective secret.bytes).eq_iff

theorem tokenUnder_v4_inj : (v4 m).tokenUnder secret = (v4 n).tokenUnder secret ↔ m = n :=
  tokenUnder_inj.trans register_v4_injective.eq_iff

end IpAddress

namespace TokenSecrets

variable {t : TokenSecrets} {a b : Address} {token : WriteToken}

theorem validates_iff :
    t.validates a token = true ↔ token = a.ip.tokenUnder t.current ∨ token = a.ip.tokenUnder t.previous := by
  simp only [validates, Bool.or_eq_true, decide_eq_true_eq]

theorem validates_generate (t : TokenSecrets) (hsame : a.ip = b.ip) : t.validates b (t.generate a) = true :=
  validates_iff.2 (.inl (congrArg (·.tokenUnder t.current) hsame))

/-- Requesters in version 4 have the same token exactly if they have the same IP address. So the token of one is
    valid for another only by the chance that the other had it under the previous secret, whereas the port makes
    no difference to any token. -/
theorem tokens_separate_v4 (t : TokenSecrets) :
    (∀ m n : Octets 4, ∀ p q : UInt16, t.generate (.v4 m p) = t.generate (.v4 n q) ↔ m = n) ∧
      (∀ m n : Octets 4, ∀ p q : UInt16, m ≠ n →
        (t.validates (.v4 n q) (t.generate (.v4 m p)) = true ↔
          (IpAddress.v4 n).tokenUnder t.previous = t.generate (.v4 m p))) ∧
      ∀ a b : Address, a.ip = b.ip → t.validates b (t.generate a) = true := by
  refine ⟨fun m n p q => IpAddress.tokenUnder_v4_inj, fun m n p q hne => ?_, fun a b => t.validates_generate⟩
  have hother : t.generate (.v4 m p) ≠ (IpAddress.v4 n).tokenUnder t.current :=
    fun hsame => hne (IpAddress.tokenUnder_v4_inj.1 hsame)
  exact validates_iff.trans ⟨fun hvalid => (hvalid.resolve_left hother).symm, fun hsame => .inr hsame.symm⟩

/-- The secrets after some rotations. Of the secrets in the order in which they are drawn, the first two are there
    from the beginning, and each rotation draws one more. -/
def afterRotations (drawn : Nat → Secret) : Nat → TokenSecrets
  | 0 => ⟨drawn 0, drawn 1⟩
  | n + 1 => (afterRotations drawn n).rotate (drawn (n + 2))

/-- However many rotations there were, the secrets that count are the two drawn last. -/
theorem afterRotations_eq (drawn : Nat → Secret) (n : Nat) :
    afterRotations drawn n = ⟨drawn n, drawn (n + 1)⟩ := by
  induction n with
  | zero => rfl
  | succ n ih => rw [afterRotations, ih, rotate]

theorem generate_afterRotations (drawn : Nat → Secret) (n : Nat) (a : Address) :
    (afterRotations drawn n).generate a = a.ip.tokenUnder (drawn (n + 1)) := by
  rw [afterRotations_eq, generate]

theorem validates_afterRotations (drawn : Nat → Secret) (n : Nat) (a : Address) (token : WriteToken) :
    (afterRotations drawn n).validates a token = true ↔
      token = a.ip.tokenUnder (drawn (n + 1)) ∨ token = a.ip.tokenUnder (drawn n) := by
  rw [afterRotations_eq, validates_iff]

/-- At any time the valid tokens of an address are those under the two secrets drawn last. So a token is valid when
    it is issued and after the next rotation, at all ports of its IP address. After further rotations it is valid
    only if one of the two secrets that count by then happens to give the same one. -/
theorem token_lifetime (drawn : Nat → Secret) :
    (∀ n a token, (afterRotations drawn n).validates a token = true ↔
      token = a.ip.tokenUnder (drawn (n + 1)) ∨ token = a.ip.tokenUnder (drawn n)) ∧
    ∀ m (a b : Address), a.ip = b.ip →
      let token := (afterRotations drawn m).generate a
      (afterRotations drawn m).validates b token = true ∧
        (afterRotations drawn (m + 1)).validates b token = true ∧
        ∀ n, m + 2 ≤ n → ((afterRotations drawn n).validates b token = true ↔
          a.ip.tokenUnder (drawn (n + 1)) = token ∨ a.ip.tokenUnder (drawn n) = token) := by
  refine ⟨validates_afterRotations drawn, fun m a b hsame => ?_⟩
  intro token
  have htoken : token = b.ip.tokenUnder (drawn (m + 1)) := hsame ▸ generate_afterRotations drawn m a
  refine ⟨validates_generate _ hsame, (validates_afterRotations ..).2 (.inr htoken), fun n _ => ?_⟩
  rw [validates_afterRotations, hsame]
  exact or_congr eq_comm eq_comm

end TokenSecrets

end DhtStore
