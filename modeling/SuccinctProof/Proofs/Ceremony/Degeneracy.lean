import SuccinctProof.Proofs.Ceremony.Setup

/-!
# Keys whose quotient does not count

The elements for the quotient in a proving key are multiples by `Z tau`, for the vanishing
polynomial `Z` of the constraint points. When `tau` is one of these points, they are all zero, and a
proof made with the key is the same for every quotient. Otherwise none of them is zero, and the
quotient's part of a proof tells whether the quotient vanishes at `tau`
(`ProvingKey.evalInGroup_quotientTerms_eq_zero_iff`).

The constraint points are `1, …, n`, and a configuration made by `CeremonyConfig.forConstraints`
draws `tau` from `200, …, 500`. So the two meet for no `n` below 200, for the secrets up to `n` when
`n` is between 200 and 499, and for all secrets from 500 on.
-/

namespace SuccinctProof

variable {p : ℕ}

/-- The secrets of the smallest sizes are small. -/
theorem Phase1Secrets.exists_tau_of_sample_forConstraints [Modulus p] {n attempts : ℕ}
    {s s' : WordStream} {secrets : Phase1Secrets p}
    (h : sample (.forConstraints n) attempts s = some (secrets, s')) :
    ∃ k : ℕ, (200 ≤ k ∧ k ≤ 500) ∧ secrets.tau = k := by
  obtain ⟨s₁, htau⟩ := exists_of_sample h
  have hrange : (CeremonyConfig.forConstraints n).secretRange = some (200, 500) := rfl
  obtain ⟨k, hlow, hhigh, hk⟩ := CeremonyConfig.exists_of_secret hrange htau
  have h200 : (200 : UInt64).toNat = 200 := rfl
  have h500 : (500 : UInt64).toNat = 500 := rfl
  exact ⟨k, by omega, hk⟩

namespace ProvingKey

/-! ### The elements for the quotient -/

section Terms

variable [Modulus p] {G₁ G₂ : Type} [AddCommGroup G₁] [Module (Fp p) G₁] [AddCommGroup G₂]
  [Module (Fp p) G₂] [Generated G₁] [Generated G₂] (q : Qap p) (s : Phase1Secrets p)
  (t : Phase2Secrets p)

theorem length_quotientTerms :
    (ofExponents q s t : ProvingKey p G₁ G₂).quotientTerms.length = q.numConstraints - 1 := by
  rw [ofExponents, List.length_map, length_powersFrom]

/-- The quotient's part of a proof. -/
theorem evalInGroup_quotientTerms_eq_ok_iff {f : Poly p} {v : G₁} :
    f.evalInGroup (ofExponents q s t : ProvingKey p G₁ G₂).quotientTerms = .ok v ↔
      f.length ≤ q.numConstraints - 1 ∧
        (t.delta⁻¹ * q.z.eval s.tau * f.eval s.tau) • (Generated.generator : G₁) = v := by
  rw [ofExponents, evalInGroup_map_eq_ok_iff]

/-- The elements are multiples by the value of the vanishing polynomial. -/
theorem mem_quotientTerms_iff {v : G₁} :
    v ∈ (ofExponents q s t : ProvingKey p G₁ G₂).quotientTerms ↔
      ∃ j < q.numConstraints - 1,
        (t.delta⁻¹ * q.z.eval s.tau * s.tau ^ j) • (Generated.generator : G₁) = v := by
  simp only [ofExponents, powersFrom_eq_map_range, List.map_map, List.mem_map, List.mem_range,
    Function.comp_apply]

variable {q s t}

/-- **At a root all elements are zero.** -/
theorem quotientTerms_eq_zero (hroot : q.z.eval s.tau = 0) :
    ∀ v ∈ (ofExponents q s t : ProvingKey p G₁ G₂).quotientTerms, v = 0 := by
  intro v hv
  obtain ⟨j, -, rfl⟩ := (mem_quotientTerms_iff q s t).1 hv
  rw [hroot, mul_zero, zero_mul, zero_smul]

/-- At a root the quotient's part of a proof is zero whatever the quotient is. -/
theorem evalInGroup_quotientTerms_of_root (hroot : q.z.eval s.tau = 0) {f : Poly p}
    (hf : f.length ≤ q.numConstraints - 1) :
    f.evalInGroup (ofExponents q s t : ProvingKey p G₁ G₂).quotientTerms = .ok 0 := by
  refine (evalInGroup_quotientTerms_eq_ok_iff q s t).2 ⟨hf, ?_⟩
  rw [hroot, mul_zero, zero_mul, zero_smul]

end Terms

section Prime

variable [Fact p.Prime] {G₁ G₂ : Type} [AddCommGroup G₁] [Module (Fp p) G₁] [AddCommGroup G₂]
  [Module (Fp p) G₂] [Generated G₁] [Generated G₂] {q : Qap p} {s : Phase1Secrets p}
  {t : Phase2Secrets p} (hg : (Generated.generator : G₁) ≠ 0) (hdelta : t.delta ≠ 0)
  (hroot : q.z.eval s.tau ≠ 0)
include hg hdelta hroot

/-- **Away from the roots no element is zero.** -/
theorem quotientTerms_ne_zero (htau : s.tau ≠ 0) :
    ∀ v ∈ (ofExponents q s t : ProvingKey p G₁ G₂).quotientTerms, v ≠ 0 := by
  intro v hv
  obtain ⟨j, -, rfl⟩ := (mem_quotientTerms_iff q s t).1 hv
  rw [ne_eq, smul_eq_zero_iff_of_ne_zero hg]
  exact mul_ne_zero (mul_ne_zero (Fp.inv_ne_zero hdelta) hroot) (pow_ne_zero j htau)

/-- **Away from the roots the quotient's part tells whether the quotient vanishes.** -/
theorem evalInGroup_quotientTerms_eq_zero_iff (f : Poly p) :
    f.evalInGroup (ofExponents q s t : ProvingKey p G₁ G₂).quotientTerms = .ok 0 ↔
      f.length ≤ q.numConstraints - 1 ∧ f.eval s.tau = 0 := by
  have hfactor := mul_ne_zero (Fp.inv_ne_zero hdelta) hroot
  rw [evalInGroup_quotientTerms_eq_ok_iff, smul_eq_zero_iff_of_ne_zero hg, mul_eq_zero,
    or_iff_right hfactor]

end Prime

/-! ### Keys that are set up with the smallest sizes -/

variable [Fact p.Prime] {G₁ G₂ : Type} [AddCommGroup G₁] [Module (Fp p) G₁] [AddCommGroup G₂]
  [Module (Fp p) G₂] [Generated G₁] [Generated G₂]

/-- **A key is degenerate exactly when its `tau` is among the constraint points.** Take a modulus
above 500, the end of the range that secrets are drawn from, a system of one height below the modulus
that was lifted, and a key that was set up with the smallest sizes for it, from any stream. Its `tau`
is one of the integers `200, …, 500`. When this integer is above the number of constraints, `tau` is
not a root of the vanishing polynomial, no element for the quotient is zero, and the quotient's part
of a proof is zero for the quotients that vanish at `tau` only. Otherwise `tau` is a root, all these
elements are zero, and so is the part of every quotient.

There is one element for the quotient less than there are constraints, so with a single constraint
there is none. -/
theorem setup_forConstraints_dichotomy (hp : 500 < p)
    (hg : (Generated.generator : G₁) ≠ 0) {m : RankOneSystem p} {numPublic : ℕ} {q : Qap p}
    (hm : m.SameHeight) (hlt : m.numConstraints < p)
    (hq : Qap.ofRankOneSystem m numPublic = .ok q) {attempts : ℕ} {s s' : WordStream}
    {pk : ProvingKey p G₁ G₂}
    (h : setup (.forConstraints m.numConstraints) q attempts s = some (.ok pk, s')) :
    ∃ (secrets : Phase1Secrets p) (s₁ : WordStream) (k : ℕ),
      Phase1Secrets.sample (.forConstraints m.numConstraints) attempts s = some (secrets, s₁) ∧
      secrets.tau = k ∧ (200 ≤ k ∧ k ≤ 500) ∧
      pk.quotientTerms.length = m.numConstraints - 1 ∧
      (m.numConstraints < k →
        (Poly.vanishing m.numConstraints).eval secrets.tau ≠ 0 ∧
        (∀ v ∈ pk.quotientTerms, v ≠ 0) ∧
        ∀ f : Poly p, f.evalInGroup pk.quotientTerms = .ok 0 ↔
          f.length ≤ m.numConstraints - 1 ∧ f.eval secrets.tau = 0) ∧
      (k ≤ m.numConstraints →
        (Poly.vanishing m.numConstraints).eval secrets.tau = 0 ∧
        (∀ v ∈ pk.quotientTerms, v = 0) ∧
        ∀ f : Poly p, f.length ≤ m.numConstraints - 1 →
          f.evalInGroup pk.quotientTerms = .ok 0) := by
  have hlift := Qap.lifts_of_eq_ok hm hlt hq
  have hrange := CeremonyConfig.rangeBelow_forConstraints hp m.numConstraints
  have hn : q.numConstraints = m.numConstraints := hlift.numConstraints_eq
  obtain ⟨secrets, s₁, hsecrets, ⟨-, t, ht, hpk⟩ | ⟨-, hpk⟩⟩ :=
    setup_outcome hrange hlift h
  swap
  · exact nomatch hpk
  obtain rfl := Except.ok.inj hpk
  obtain ⟨k, hk, htau⟩ := Phase1Secrets.exists_tau_of_sample_forConstraints hsecrets
  have hdelta := (Phase2Secrets.ne_zero_of_sample hrange ht).1
  have hroot : (Poly.vanishing m.numConstraints).eval secrets.tau = 0 ↔
      1 ≤ k ∧ k ≤ m.numConstraints := by
    rw [htau, Poly.eval_vanishing_natCast_eq_zero_iff hlt (by omega)]
  refine ⟨secrets, s₁, k, hsecrets, htau, hk, by rw [length_quotientTerms, hn], ?_, ?_⟩
  · intro habove
    have hne : (Poly.vanishing m.numConstraints).eval secrets.tau ≠ 0 := by
      rw [ne_eq, hroot]
      omega
    have htau0 : secrets.tau ≠ 0 := by
      rw [htau, ← Nat.cast_zero, ne_eq, Fp.natCast_inj_of_lt (by omega) (by omega)]
      omega
    rw [← hlift.z_eq] at hne ⊢
    rw [← hn]
    exact ⟨hne, quotientTerms_ne_zero hg hdelta hne htau0,
      evalInGroup_quotientTerms_eq_zero_iff hg hdelta hne⟩
  · intro hle
    have hzero := hroot.2 ⟨by omega, hle⟩
    rw [← hlift.z_eq] at hzero ⊢
    rw [← hn]
    exact ⟨hzero, quotientTerms_eq_zero hzero, fun f ↦ evalInGroup_quotientTerms_of_root hzero⟩

/-! ### Two keys -/

/-- The key of a system of any height for the secrets that are drawn. -/
theorem exists_setup_ownSquare (hp : 500 < p) {n : ℕ} (hpos : 0 < n) (hlt : n < p)
    (hconfig : (CeremonyConfig.forConstraints n).Suffices n) {attempts : ℕ} {s s₁ s' : WordStream}
    {secrets : Phase1Secrets p}
    (hsecrets : Phase1Secrets.sample (.forConstraints n) attempts s = some (secrets, s₁))
    {t : Phase2Secrets p}
    (ht : Phase2Secrets.sample (.forConstraints n) attempts s₁ = some (t, s')) :
    ∃ q : Qap p, Qap.ofRankOneSystem (.ownSquare n) 1 = .ok q ∧ q.Lifts (.ownSquare n) 1 ∧
      setup (.forConstraints n) q attempts s =
        some (.ok (ofExponents q secrets t : ProvingKey p G₁ G₂), s') := by
  obtain ⟨q, hq⟩ := RankOneSystem.exists_ofRankOneSystem_ownSquare hpos hlt
  have hlift := Qap.lifts_of_eq_ok (RankOneSystem.sameHeight_ownSquare n)
    (by rwa [RankOneSystem.numConstraints_ownSquare]) hq
  refine ⟨q, hq, hlift, setup_of_sample (CeremonyConfig.rangeBelow_forConstraints hp n) hlift ?_ hsecrets ht⟩
  rwa [RankOneSystem.numConstraints_ownSquare]

/-- With two constraints the smallest secret, 200, gives a key that is not degenerate. -/
theorem setup_forConstraints_two :
    500 < Bls12381.r ∧ (Generated.generator : Fp Bls12381.r) ≠ 0 ∧
    (RankOneSystem.ownSquare 2 : RankOneSystem Bls12381.r).SameHeight ∧
    (RankOneSystem.ownSquare 2 : RankOneSystem Bls12381.r).numConstraints < Bls12381.r ∧
    ∃ (q : Qap Bls12381.r) (pk : ProvingKey Bls12381.r (Fp Bls12381.r) (Fp Bls12381.r))
      (s' : WordStream), Qap.ofRankOneSystem (.ownSquare 2) 1 = .ok q ∧
      setup (.forConstraints (RankOneSystem.ownSquare 2 : RankOneSystem Bls12381.r).numConstraints)
        q 1 (.seeded (.replicate 5 0) 0) = some (.ok pk, s') ∧
      pk.quotientTerms.length = 1 ∧ ∀ v ∈ pk.quotientTerms, v ≠ 0 := by
  have hp : 500 < Bls12381.r := by decide
  have hg : (Generated.generator : Fp Bls12381.r) ≠ 0 := by decide
  have hm := RankOneSystem.sameHeight_ownSquare (p := Bls12381.r) 2
  have hlt : (RankOneSystem.ownSquare 2 : RankOneSystem Bls12381.r).numConstraints < Bls12381.r := by
    decide
  obtain ⟨q, hq, -, hsetup⟩ : ∃ q : Qap Bls12381.r, _ ∧ _ ∧
      setup (.forConstraints 2) q 1 (.seeded (.replicate 5 0) 0) =
        some (.ok (_ : ProvingKey Bls12381.r (Fp Bls12381.r) (Fp Bls12381.r)), _) :=
    exists_setup_ownSquare hp Nat.two_pos hlt (by decide) rfl rfl
  obtain ⟨secrets, s₁, k, -, -, ⟨hk, -⟩, hlength, hsound, -⟩ :=
    setup_forConstraints_dichotomy hp hg hm hlt hq hsetup
  have habove : (RankOneSystem.ownSquare 2 : RankOneSystem Bls12381.r).numConstraints < k := by
    rw [RankOneSystem.numConstraints_ownSquare]
    omega
  exact ⟨hp, hg, hm, hlt, q, _, _, hq, hsetup, hlength, (hsound habove).2.1⟩

/-- With two hundred constraints the same secret is a root, and nothing is left of the quotient. -/
theorem setup_forConstraints_twoHundred :
    (RankOneSystem.ownSquare 200 : RankOneSystem Bls12381.r).SameHeight ∧
    (RankOneSystem.ownSquare 200 : RankOneSystem Bls12381.r).numConstraints = 200 ∧
    ∃ (q : Qap Bls12381.r) (pk : ProvingKey Bls12381.r (Fp Bls12381.r) (Fp Bls12381.r))
      (secrets : Phase1Secrets Bls12381.r) (s₁ s' : WordStream),
      Qap.ofRankOneSystem (.ownSquare 200) 1 = .ok q ∧
      Phase1Secrets.sample (.forConstraints 200) 1 (.seeded (.replicate 5 0) 0) =
        some (secrets, s₁) ∧
      setup (.forConstraints 200) q 1 (.seeded (.replicate 5 0) 0) = some (.ok pk, s') ∧
      (Poly.vanishing 200).eval secrets.tau = 0 ∧
      pk.quotientTerms.length = 199 ∧ ∀ v ∈ pk.quotientTerms, v = 0 := by
  have hp : 500 < Bls12381.r := by decide
  have hlt : 200 < Bls12381.r := by decide
  obtain ⟨q, hq, hlift, hsetup⟩ : ∃ q : Qap Bls12381.r, _ ∧ _ ∧
      setup (.forConstraints 200) q 1 (.seeded (.replicate 5 0) 0) =
        some (.ok (_ : ProvingKey Bls12381.r (Fp Bls12381.r) (Fp Bls12381.r)), _) :=
    exists_setup_ownSquare hp (by decide) hlt (by decide) rfl rfl
  have hn : (RankOneSystem.ownSquare 200 : RankOneSystem Bls12381.r).numConstraints = 200 :=
    RankOneSystem.numConstraints_ownSquare 200
  have hroot : (Poly.vanishing 200).eval ((200 : ℕ) : Fp Bls12381.r) = 0 :=
    (Poly.eval_vanishing_natCast_eq_zero_iff hlt hlt).2 ⟨by decide, le_rfl⟩
  refine ⟨RankOneSystem.sameHeight_ownSquare 200, hn, q, _, _, _, _, hq, rfl, hsetup, hroot, ?_, ?_⟩
  · rw [length_quotientTerms, hlift.numConstraints_eq, hn]
  · refine quotientTerms_eq_zero ?_
    rw [hlift.z_eq, hn]
    exact hroot

end ProvingKey

end SuccinctProof
