import SuccinctProof.Proof.Verify
import SuccinctProof.Proofs.Ceremony.Keys

/-!
# Proofs in the exponent

Under a key of known secrets, proving and verifying are computations with scalars:

* a proof whose elements are multiples of the generators is accepted when its scalars satisfy one
  equation in the field (`VerifyingKey.verify_ofScalars_of_eq`), and, when the pairing of the
  generators is not trivial, only then (`VerifyingKey.verify_ofScalars_iff`);
* a vector has a proof when it has a quotient and the key has enough powers, whatever the blinding
  factors are, and the proof has the scalars `Proof.scalars`
  (`Proof.ofWitness_ofExponents_eq_ok_iff`);
* these scalars satisfy an equation in which the public values of the vector stand where the
  verifier has the inputs (`Proof.scalars_mul`).
-/

namespace SuccinctProof

variable {p : ℕ} [Modulus p] {G₁ G₂ Gₜ : Type} [AddCommGroup G₁] [Module (Fp p) G₁]
  [AddCommGroup G₂] [Module (Fp p) G₂] [Generated G₁] [Generated G₂]

attribute [ext] Proof

/-- The proof with the given scalars: every element is a multiple of a generator. -/
def Proof.ofScalars (proof : Proof (Fp p) (Fp p)) : Proof G₁ G₂ where
  a := proof.a • Generated.generator
  b := proof.b • Generated.generator
  c := proof.c • Generated.generator

/-! ### Verification -/

namespace VerifyingKey

variable {q : Qap p} {s : Phase1Secrets p} {t : Phase2Secrets p} {x : List (Fp p)}

/-- **The commitment to inputs is their combination with the values of the public wires**, and is
refused exactly for another number of inputs. -/
theorem commitInputs_ofExponents (hq : q.Aligned) :
    (ProvingKey.ofExponents q s t : ProvingKey p G₁ G₂).vk.commitInputs x =
      if x.length + 1 = q.numPublic then
        .ok ((t.gamma⁻¹ * dot (1 :: x) ((q.wireValues s).take q.numPublic)) •
          (Generated.generator : G₁))
      else .error .malformedKey := by
  have hlen : ((q.wireValues s).take q.numPublic).length = q.numPublic := by
    rw [List.length_take, Qap.length_wireValues hq, Nat.min_eq_left hq.numPublic_le]
  obtain ⟨v, vs, hvs⟩ := List.exists_cons_of_length_pos (hlen ▸ hq.numPublic_pos)
  have hlen' : vs.length + 1 = q.numPublic := by rw [← hlen, hvs, List.length_cons]
  rw [commitInputs, ProvingKey.ofExponents]
  simp only [hvs, List.map_cons]
  rw [List.length_map, List.length_map, combineMultiples_map, ← add_smul]
  by_cases hx : x.length = vs.length
  · rw [if_pos hx, if_pos (by omega), dot_cons, one_mul, mul_add, dot_map_mul]
  · rw [if_neg hx, if_neg (by omega)]

/-- The right side of the equation that the scalars of an accepted proof satisfy. -/
def target (q : Qap p) (s : Phase1Secrets p) (t : Phase2Secrets p) (x : List (Fp p)) (c : Fp p) :
    Fp p :=
  s.alpha * s.beta + dot (1 :: x) ((q.wireValues s).take q.numPublic) + c * t.delta

end VerifyingKey

section Prime

variable {p : ℕ} [Fact p.Prime] {G₁ G₂ Gₜ : Type} [AddCommGroup G₁] [Module (Fp p) G₁]
  [AddCommGroup G₂] [Module (Fp p) G₂] [CommGroup Gₜ] [DecidableEq Gₜ] [Generated G₁]
  [Generated G₂] [Pairing G₁ G₂ Gₜ] [BilinearPairing G₁ G₂ Gₜ]
  {q : Qap p} {s : Phase1Secrets p} {t : Phase2Secrets p} {x : List (Fp p)}

namespace VerifyingKey

/-- **Verification compares one power of the pairing of the generators with another.** The divisor
`gamma` of the public part cancels. -/
theorem verify_ofScalars (hq : q.Aligned) (hgamma : t.gamma ≠ 0)
    (proof : Proof (Fp p) (Fp p)) :
    (ProvingKey.ofExponents q s t : ProvingKey p G₁ G₂).vk.verify x proof.ofScalars =
      if x.length + 1 = q.numPublic then
        .ok (Pairing.power G₁ G₂ (proof.a * proof.b) =
          (Pairing.power G₁ G₂ (target q s t x proof.c) : Gₜ))
      else .error .malformedKey := by
  rw [verify, commitInputs_ofExponents hq]
  split
  · rw [ok_bind]
    have hcancel : ∀ k : Fp p, t.gamma⁻¹ * k * t.gamma = k := by
      intro k
      rw [mul_right_comm, Fp.inv_mul_cancel hgamma, one_mul]
    simp only [ProvingKey.ofExponents, Proof.ofScalars, Pairing.pair_generators, hcancel,
      ← Pairing.power_add]
    rfl
  · rfl

/-- Scalars that satisfy the equation are accepted. -/
theorem verify_ofScalars_of_eq (hq : q.Aligned) (hgamma : t.gamma ≠ 0)
    {proof : Proof (Fp p) (Fp p)} (hx : x.length + 1 = q.numPublic)
    (h : proof.a * proof.b = target q s t x proof.c) :
    (ProvingKey.ofExponents q s t : ProvingKey p G₁ G₂).vk.verify x proof.ofScalars = .ok true := by
  rw [verify_ofScalars hq hgamma, if_pos hx, h]
  simp

/-- **Exactly the scalars that satisfy the equation are accepted**, when the pairing of the
generators is not trivial. -/
theorem verify_ofScalars_iff
    (hne : (Pairing.pair (Generated.generator : G₁) (Generated.generator : G₂) : Gₜ) ≠ 1)
    (hq : q.Aligned) (hgamma : t.gamma ≠ 0) {proof : Proof (Fp p) (Fp p)} :
    (ProvingKey.ofExponents q s t : ProvingKey p G₁ G₂).vk.verify x proof.ofScalars = .ok true ↔
      x.length + 1 = q.numPublic ∧ proof.a * proof.b = target q s t x proof.c := by
  rw [verify_ofScalars hq hgamma]
  split
  · next hx => simp [hx, Pairing.power_inj hne]
  · next hx => simp [hx]

end VerifyingKey

end Prime

/-! ### Proving -/

namespace Proof

omit [Generated G₁] [Generated G₂] in
/-- What a key has to provide for a proof: elements for the coefficients of the quotient, and powers
for the two factors. -/
theorem exists_quotient_of_ofWitness [SplitMul (Fp p) G₁] {pk : ProvingKey p G₁ G₂}
    {w : List (Fp p)} {r₁ r₂ : Fp p} {proof : Proof G₁ G₂}
    (hproof : ofWitness pk w r₁ r₂ = .ok proof) :
    ∃ h, pk.qap.quotient w = .ok h ∧ h.length ≤ pk.quotientTerms.length ∧
      (pk.qap.left w).length ≤ pk.tauG1.length ∧ (pk.qap.right w).length ≤ pk.tauG2.length := by
  simp only [ofWitness, ite_throw_eq_ok_iff, bind_eq_ok_iff] at hproof
  obtain ⟨h, hquotient, _, hh, -, -, _, hleft, _, -, _, hright, -⟩ := hproof
  exact ⟨h, hquotient, length_le_of_evalInGroup hh, length_le_of_evalInGroup hleft,
    length_le_of_evalInGroup hright⟩

variable {q : Qap p} {s : Phase1Secrets p} {t : Phase2Secrets p}

/-- The scalars of the proof for a vector `w` with quotient `h`, blinded by `r₁` and `r₂`. -/
def scalars (q : Qap p) (s : Phase1Secrets p) (t : Phase2Secrets p) (w : List (Fp p)) (h : Poly p)
    (r₁ r₂ : Fp p) : Proof (Fp p) (Fp p) :=
  let a := (q.left w).eval s.tau + s.alpha + r₁ * t.delta
  let b := (q.right w).eval s.tau + s.beta + r₂ * t.delta
  { a := a
    b := b
    c := r₂ * a + r₁ * b - r₁ * r₂ * t.delta +
      t.delta⁻¹ * dot (w.drop q.numPublic) ((q.wireValues s).drop q.numPublic) +
      t.delta⁻¹ * q.z.eval s.tau * h.eval s.tau }

theorem length_left_le (hq : q.WellShaped) (w : List (Fp p)) :
    (q.left w).length ≤ q.numConstraints := by
  rw [Qap.left, Poly.length_combine]
  exact Poly.maxLength_le fun f hf ↦
    hq.length_le f (List.mem_append_left _ (List.mem_append_left _ hf))

theorem length_right_le (hq : q.WellShaped) (w : List (Fp p)) :
    (q.right w).length ≤ q.numConstraints := by
  rw [Qap.right, Poly.length_combine]
  exact Poly.maxLength_le fun f hf ↦
    hq.length_le f (List.mem_append_left _ (List.mem_append_right _ hf))

variable [SplitMul (Fp p) G₁] [LawfulSplitMul (Fp p) G₁]

/-- **The right factor in the first group counts as if it were always computed.** -/
theorem splitMul_rightFactorG1 {w : List (Fp p)} (hright : (q.right w).length ≤ q.numConstraints)
    (r₁ r₂ : Fp p) :
    ∃ g : G₁, rightFactorG1 (ProvingKey.ofExponents q s t : ProvingKey p G₁ G₂) (q.right w) r₁ r₂ =
      .ok g ∧ SplitMul.splitMul r₁ g =
        (r₁ * ((q.right w).eval s.tau + s.beta + r₂ * t.delta)) • (Generated.generator : G₁) := by
  rw [rightFactorG1]
  by_cases hr : r₁ = 0
  · refine ⟨0, by rw [if_pos hr]; rfl, ?_⟩
    rw [LawfulSplitMul.splitMul_eq, hr, zero_mul, zero_smul, zero_smul]
  · rw [if_neg hr, ProvingKey.ofExponents]
    dsimp only
    rw [evalInGroup_map hright, one_mul]
    refine ⟨_, rfl, ?_⟩
    rw [LawfulSplitMul.splitMul_eq, mul_smul, add_smul, add_smul, mul_smul]

/-- **The proof for a vector with a quotient has the scalars that are written down above.** -/
theorem ofWitness_ofExponents (hq : q.Aligned) {w : List (Fp p)} {h : Poly p}
    (hquotient : q.quotient w = .ok h) (hlen : h.length ≤ q.numConstraints - 1)
    (hleft : (q.left w).length ≤ q.numConstraints)
    (hright : (q.right w).length ≤ q.numConstraints) (r₁ r₂ : Fp p) :
    ofWitness (ProvingKey.ofExponents q s t : ProvingKey p G₁ G₂) w r₁ r₂ =
      .ok (scalars q s t w h r₁ r₂).ofScalars := by
  have hw := Qap.length_of_quotient hquotient
  have hprivate : (w.drop q.numPublic).length =
      (ProvingKey.ofExponents q s t : ProvingKey p G₁ G₂).privateTerms.length := by
    rw [ProvingKey.ofExponents, List.length_map, List.length_map, List.length_drop,
      List.length_drop, Qap.length_wireValues hq, hw]
  obtain ⟨g, hg, hmul⟩ : ∃ g : G₁,
      rightFactorG1 (ProvingKey.ofExponents q s t : ProvingKey p G₁ G₂) _ _ _ = _ ∧ _ :=
    splitMul_rightFactorG1 hright r₁ r₂
  have hpublic : ¬ w.length < q.numPublic := by
    have := hq.numPublic_le
    omega
  have hh : h.evalInGroup (ProvingKey.ofExponents q s t : ProvingKey p G₁ G₂).quotientTerms = _ :=
    evalInGroup_map hlen _ _ _
  have hleftG1 : (q.left w).evalInGroup
      (ProvingKey.ofExponents q s t : ProvingKey p G₁ G₂).tauG1 = _ := evalInGroup_map hleft _ _ _
  have hrightG2 : (q.right w).evalInGroup
      (ProvingKey.ofExponents q s t : ProvingKey p G₁ G₂).tauG2 = _ := evalInGroup_map hright _ _ _
  rw [ofWitness, show (ProvingKey.ofExponents q s t : ProvingKey p G₁ G₂).qap = q from rfl,
    hquotient, ok_bind, hh, ok_bind, if_neg hpublic, if_neg (not_not.2 hprivate), hleftG1, ok_bind]
  dsimp only
  rw [hg, ok_bind, hrightG2, ok_bind, hmul, LawfulSplitMul.splitMul_eq]
  simp only [ProvingKey.ofExponents, combineMultiples_map, dot_map_mul, one_mul, smul_smul,
    ← add_smul, ← sub_smul]
  rfl

/-- **A vector has a proof when it has a quotient and the key has enough powers.** The blinding
factors do not matter for this. -/
theorem ofWitness_ofExponents_eq_ok_iff (hq : q.Aligned) {w : List (Fp p)} {r₁ r₂ : Fp p}
    {proof : Proof G₁ G₂} :
    ofWitness (ProvingKey.ofExponents q s t : ProvingKey p G₁ G₂) w r₁ r₂ = .ok proof ↔
      ∃ h, q.quotient w = .ok h ∧ h.length ≤ q.numConstraints - 1 ∧
        (q.left w).length ≤ q.numConstraints ∧ (q.right w).length ≤ q.numConstraints ∧
        (scalars q s t w h r₁ r₂).ofScalars = proof := by
  constructor
  · intro hproof
    have hexists := exists_quotient_of_ofWitness hproof
    simp only [ProvingKey.ofExponents, List.length_map, length_powersFrom] at hexists
    obtain ⟨h, hquotient, hlen, hleft, hright⟩ := hexists
    rw [ofWitness_ofExponents hq hquotient hlen hleft hright] at hproof
    exact ⟨h, hquotient, hlen, hleft, hright, Except.ok.inj hproof⟩
  · rintro ⟨h, hquotient, hlen, hleft, hright, rfl⟩
    exact ofWitness_ofExponents hq hquotient hlen hleft hright r₁ r₂

end Proof

/-! ### The equation of a proof -/

/-- **The scalars of a proof satisfy an equation**, in which the public values of the vector stand
where the verifier has the inputs. The private and the public part together are the values of the
combined polynomials, and `h * z` is `A * B - C`. -/
theorem Proof.scalars_mul {p : ℕ} [Fact p.Prime] {q : Qap p} (hq : q.Aligned) {s : Phase1Secrets p}
    {t : Phase2Secrets p} (hdelta : t.delta ≠ 0) {w : List (Fp p)} {h : Poly p}
    (hquotient : q.quotient w = .ok h) (r₁ r₂ : Fp p) :
    (scalars q s t w h r₁ r₂).a * (scalars q s t w h r₁ r₂).b =
      s.alpha * s.beta + dot (w.take q.numPublic) ((q.wireValues s).take q.numPublic) +
        (scalars q s t w h r₁ r₂).c * t.delta := by
  have hh := Qap.eval_quotient_mul hquotient s.tau
  have hsplit := dot_take_add_dot_drop q.numPublic
    ((Qap.length_of_quotient hquotient).trans (Qap.length_wireValues hq s).symm)
  rw [Qap.dot_wireValues hq] at hsplit
  have hcancel := Fp.inv_mul_cancel hdelta
  rw [scalars]
  dsimp only
  set priv := dot (w.drop q.numPublic) ((q.wireValues s).drop q.numPublic)
  linear_combination -hsplit - hh - (priv + q.z.eval s.tau * h.eval s.tau) * hcancel

end SuccinctProof
