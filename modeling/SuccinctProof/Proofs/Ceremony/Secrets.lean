import SuccinctProof.Ceremony.Config
import SuccinctProof.Proofs.Field
import SuccinctProof.Proofs.Random.Sampler

/-!
# The secrets of a ceremony

A secret is never zero, from whatever range and stream it is drawn (`CeremonyConfig.secret_ne_zero`).
From the whole field this is what its rejection asks for. From a range it rests on two facts: the
range is cut off below one, so no integer of it is zero (`CeremonyConfig.exists_of_secret`), and its
integers are below the modulus (`CeremonyConfig.RangeBelow`), so none has the residue zero. Without
that a multiple of the modulus could be drawn. A modulus above all words is enough for every range,
and one above 500 for the sizes made by `CeremonyConfig.forConstraints`.
-/

namespace SuccinctProof

variable {p : ℕ} [Modulus p] {config : CeremonyConfig} {attempts : ℕ} {s s' : WordStream}

namespace CeremonyConfig

/-- **A secret from a range is an integer of the range**, once it is cut off below one. An empty
range stands for its lower end. -/
theorem exists_of_secret {low high : UInt64} (hrange : config.secretRange = some (low, high))
    {x : Fp p} (h : config.secret attempts s = some (x, s')) :
    ∃ k : ℕ, max low.toNat 1 ≤ k ∧ k ≤ max high.toNat (max low.toNat 1) ∧ x = k := by
  rw [secret, hrange] at h
  obtain ⟨k, s₁, hk, hpure⟩ := Sampler.bind_eq_some_iff.1 h
  obtain ⟨rfl, -⟩ := Prod.mk.inj (Sampler.pure_eq_some_iff.1 hpure)
  have hle : max low 1 ≤ max high (max low 1) := by
    rw [UInt64.le_iff_toNat_le, UInt64.toNat_max high]
    exact Nat.le_max_right _ _
  obtain ⟨hlow, hhigh⟩ := Sampler.mem_of_between_eq_some hle hk
  have hone : (1 : UInt64).toNat = 1 := rfl
  rw [UInt64.toNat_max, hone] at hlow
  rw [UInt64.toNat_max, UInt64.toNat_max, hone] at hhigh
  exact ⟨k, hlow, hhigh, rfl⟩

/-- The integers that secrets are drawn from, if there is a range, are residues of the modulus. -/
def RangeBelow (config : CeremonyConfig) (p : ℕ) : Prop :=
  ∀ low high : UInt64, config.secretRange = some (low, high) →
    max high.toNat (max low.toNat 1) < p

omit [Modulus p] in
/-- Every range is below a modulus above all words. -/
theorem rangeBelow_of_size_le (hp : UInt64.size ≤ p) : config.RangeBelow p := by
  intro low high _
  have hone : 1 < UInt64.size := by decide
  have hlow := low.toNat_lt_size
  have hhigh := high.toNat_lt_size
  omega

omit [Modulus p] in
/-- The range of the default secrets ends at 500. -/
theorem rangeBelow_forConstraints (hp : 500 < p) (n : ℕ) : (forConstraints n).RangeBelow p := by
  rintro _ _ ⟨⟩
  exact hp

/-- **No secret is zero**, for a modulus above the range. -/
theorem secret_ne_zero (hp : config.RangeBelow p) {x : Fp p}
    (h : config.secret attempts s = some (x, s')) : x ≠ 0 := by
  cases hrange : config.secretRange with
  | none =>
    rw [secret, hrange] at h
    obtain ⟨s₀, haccept⟩ := Sampler.exists_of_retry_eq_some h
    obtain ⟨y, s₁, -, hpure⟩ := Sampler.bind_eq_some_iff.1 haccept
    have hvalue := (Prod.mk.inj (Sampler.pure_eq_some_iff.1 hpure)).1
    split_ifs at hvalue with hzero
    exact Option.some.inj hvalue ▸ hzero
  | some range =>
    obtain ⟨k, hlow, hhigh, rfl⟩ := exists_of_secret hrange h
    have hlt := hp _ _ hrange
    rw [ne_eq, ← Nat.cast_zero, Fp.natCast_inj_of_lt (by omega) (by omega)]
    omega

end CeremonyConfig

/-- The first secret of the first phase is `tau`. -/
theorem Phase1Secrets.exists_of_sample {secrets : Phase1Secrets p}
    (h : sample config attempts s = some (secrets, s')) :
    ∃ s₁, config.secret attempts s = some (secrets.tau, s₁) := by
  obtain ⟨tau, s₁, htau, h⟩ := Sampler.bind_eq_some_iff.1 h
  obtain ⟨alpha, s₂, -, h⟩ := Sampler.bind_eq_some_iff.1 h
  obtain ⟨beta, s₃, -, h⟩ := Sampler.bind_eq_some_iff.1 h
  obtain ⟨rfl, -⟩ := Prod.mk.inj (Sampler.pure_eq_some_iff.1 h)
  exact ⟨s₁, htau⟩

/-- The divisors that are drawn for the second phase can be divided by. -/
theorem Phase2Secrets.ne_zero_of_sample (hp : config.RangeBelow p) {secrets : Phase2Secrets p}
    (h : sample config attempts s = some (secrets, s')) :
    secrets.delta ≠ 0 ∧ secrets.gamma ≠ 0 := by
  obtain ⟨delta, s₁, hdelta, h⟩ := Sampler.bind_eq_some_iff.1 h
  obtain ⟨gamma, s₂, hgamma, h⟩ := Sampler.bind_eq_some_iff.1 h
  obtain ⟨rfl, -⟩ := Prod.mk.inj (Sampler.pure_eq_some_iff.1 h)
  exact ⟨CeremonyConfig.secret_ne_zero hp hdelta, CeremonyConfig.secret_ne_zero hp hgamma⟩

end SuccinctProof
