import Mathlib.Tactic.LinearCombination
import SuccinctProof.Proofs.Proof.Completeness
import SuccinctProof.Proofs.Proof.LinearProver

/-!
# Soundness against linear provers

A linear prover that is accepted under the keys of all secrets knows a satisfying vector: the public
inputs together with its coefficients of the private wires. The argument compares coefficients,
first in `gamma` and `delta` (`separate_divisors`), and then in `alpha` and `beta`
(`separate_shifts`). What is left at each `tau` is `A * B = C + h * z` for the combinations of the
columns with the vector (`LinearProver.product_eq`).

At the point of a constraint `z` is zero, so the constraint holds. Nothing is compared in `tau`,
which is why it does not matter what the prover multiplies `z` with.
-/

namespace SuccinctProof

variable {p : ℕ} [Fact p.Prime]

/-! ### Comparing coefficients -/

/-- **Coefficients of `gamma` and `delta`.** The left side is the product of the two factors, with
`P` the public and `Q` the private part of the first one. Of the coefficients that have to be zero,
these are the ones that the private wires depend on. -/
theorem separate_divisors (hp : 4 < p) {S P Q T R O M a b d e k : Fp p}
    (h : ∀ gamma delta : Fp p, gamma ≠ 0 → delta ≠ 0 →
      (S + a * delta + gamma⁻¹ * P + delta⁻¹ * Q) * (T + b * gamma + d * delta) =
        k + (R + e * delta + gamma⁻¹ * O + delta⁻¹ * M) * delta) :
    S * b = 0 ∧ Q * T = 0 ∧ S * T + P * b + Q * d = k + M := by
  -- in `gamma` there are three coefficients, which are still functions of `delta`
  have hgamma : ∀ delta : Fp p, delta ≠ 0 →
      ∀ c ∈ [P * (T + d * delta) - O * delta,
        (S + a * delta + delta⁻¹ * Q) * (T + d * delta) + P * b - k -
          (R + e * delta + delta⁻¹ * M) * delta,
        (S + a * delta + delta⁻¹ * Q) * b], c = 0 := by
    intro delta hdelta
    refine Poly.coeffs_eq_zero (by simp; omega) fun gamma hgamma ↦ ?_
    have hcancel := Fp.inv_mul_cancel hgamma
    show _ + gamma * (_ + gamma * (_ + gamma * 0)) = 0
    linear_combination gamma * h gamma delta hgamma hdelta -
      (P * (T + b * gamma + d * delta) - O * delta) * hcancel
  have hlinear : ∀ c ∈ [Q * b, S * b, a * b], c = 0 := by
    refine Poly.coeffs_eq_zero (by simp; omega) fun delta hdelta ↦ ?_
    have hcancel := Fp.inv_mul_cancel hdelta
    have hc := hgamma delta hdelta ((S + a * delta + delta⁻¹ * Q) * b) (by simp)
    show _ + delta * (_ + delta * (_ + delta * 0)) = 0
    linear_combination delta * hc - Q * b * hcancel
  have hconstant : ∀ c ∈ [Q * T, S * T + Q * d + P * b - k - M, S * d + a * T - R, a * d - e],
      c = 0 := by
    refine Poly.coeffs_eq_zero (by simp; omega) fun delta hdelta ↦ ?_
    have hcancel := Fp.inv_mul_cancel hdelta
    have hc := hgamma delta hdelta
      ((S + a * delta + delta⁻¹ * Q) * (T + d * delta) + P * b - k -
        (R + e * delta + delta⁻¹ * M) * delta) (by simp)
    show _ + delta * (_ + delta * (_ + delta * (_ + delta * 0))) = 0
    linear_combination delta * hc - (Q * (T + d * delta) - M * delta) * hcancel
  refine ⟨hlinear _ (by simp), hconstant _ (by simp), ?_⟩
  have hk := hconstant (S * T + Q * d + P * b - k - M) (by simp)
  linear_combination hk

/-- A factor with a shift by `beta` is only cancelled by zero. -/
theorem shifted_eq_zero (hp : 3 < p) {u v w b k : Fp p} (hb : b ≠ 0)
    (h : ∀ alpha beta : Fp p, (beta * u + alpha * v + w) * (b * beta + k) = 0) :
    u = 0 ∧ v = 0 ∧ w = 0 := by
  -- the mixed difference leaves the coefficient of `alpha * beta`
  have hv : v = 0 := by
    have hc : v * b = 0 := by linear_combination h 1 1 - h 0 1 - h 1 0 + h 0 0
    exact (mul_eq_zero.1 hc).resolve_right hb
  have hbeta : ∀ c ∈ [w * k, u * k + w * b, u * b], c = 0 := by
    refine Poly.coeffs_eq_zero (by simp; omega) fun beta _ ↦ ?_
    show _ + beta * (_ + beta * (_ + beta * 0)) = 0
    linear_combination h 0 beta
  have hu : u = 0 := (mul_eq_zero.1 (hbeta (u * b) (by simp))).resolve_right hb
  have hw : w * b = 0 := by
    have hc := hbeta (u * k + w * b) (by simp)
    rwa [hu, zero_mul, zero_add] at hc
  exact ⟨hu, hv, (mul_eq_zero.1 hw).resolve_right hb⟩

/-- **Coefficients of `alpha` and `beta`**, of the constant term in `gamma` and `delta`. The two
factors are written out on the left, together with what the public part of the first one gains from
`gamma` in the second, and the private part from `delta`. -/
theorem coeffs_of_shifts (hp : 3 < p) {aA aB tA bB bC bD tB u v w u' v' w' l r o : Fp p}
    (h : ∀ alpha beta : Fp p, (aA * alpha + aB * beta + tA) * (bB * beta + tB) +
      (beta * u + alpha * v + w) * bC + (beta * u' + alpha * v' + w') * bD =
        alpha * beta + (beta * l + alpha * r + o)) :
    aA * bB = 1 ∧ aB * bB = 0 ∧ aA * tB + v * bC + v' * bD = r ∧
      aB * tB + tA * bB + u * bC + u' * bD = l ∧ tA * tB + w * bC + w' * bD = o := by
  have hone : aA * bB = 1 := by linear_combination h 1 1 - h 0 1 - h 1 0 + h 0 0
  have hbeta : ∀ c ∈ [tA * tB + w * bC + w' * bD - o, aB * tB + tA * bB + u * bC + u' * bD - l,
      aB * bB], c = 0 := by
    refine Poly.coeffs_eq_zero (by simp; omega) fun beta _ ↦ ?_
    show _ + beta * (_ + beta * (_ + beta * 0)) = 0
    linear_combination h 0 beta
  refine ⟨hone, hbeta _ (by simp), ?_, sub_eq_zero.1 (hbeta _ (by simp)),
    sub_eq_zero.1 (hbeta _ (by simp))⟩
  linear_combination h 1 0 - h 0 0

/-- **What is left are the two factors at `tau`.** The coefficient of `alpha * beta` is one on the
right, so neither factor lacks its shift, and whatever does not belong to it is zero. -/
theorem separate_shifts (hp : 3 < p) {aA aB tA bB bC bD tB u v w u' v' w' l r o : Fp p}
    (hgamma : ∀ alpha beta : Fp p, (aA * alpha + aB * beta + tA) * bC = 0)
    (hprivate : ∀ alpha beta : Fp p, (beta * u' + alpha * v' + w') * (bB * beta + tB) = 0)
    (h : ∀ alpha beta : Fp p, (aA * alpha + aB * beta + tA) * (bB * beta + tB) +
      (beta * u + alpha * v + w) * bC + (beta * u' + alpha * v' + w') * bD =
        alpha * beta + (beta * l + alpha * r + o)) : l * r = o := by
  obtain ⟨hone, haB, hr, hl, ho⟩ := coeffs_of_shifts hp h
  -- neither shift is missing, so what is multiplied by one of them to zero is zero
  have haA : aA ≠ 0 := left_ne_zero_of_mul_eq_one hone
  have hbB : bB ≠ 0 := right_ne_zero_of_mul_eq_one hone
  have haB : aB = 0 := (mul_eq_zero.1 haB).resolve_right hbB
  have hbC : bC = 0 := by
    have hc : aA * bC = 0 := by linear_combination hgamma 1 0 - hgamma 0 0
    exact (mul_eq_zero.1 hc).resolve_left haA
  obtain ⟨hu, hv, hw⟩ := shifted_eq_zero hp hbB hprivate
  simp only [haB, hbC, hu, hv, hw, zero_mul, mul_zero, add_zero, zero_add] at hr hl ho
  calc l * r = tA * bB * (aA * tB) := by rw [hl, hr]
    _ = aA * bB * (tA * tB) := by ring
    _ = o := by rw [hone, one_mul, ho]

/-! ### Accepted linear provers -/

/-- The values of some of the wires depend linearly on the two shifts. -/
theorem exists_dot_map_wireValues (ws : List (Fp p)) (wires : List (Poly p × Poly p × Poly p))
    (tau : Fp p) : ∃ u v w : Fp p, ∀ alpha beta : Fp p,
      dot ws (wires.map fun (a, b, c) ↦
        beta * a.eval tau + alpha * b.eval tau + c.eval tau) = beta * u + alpha * v + w :=
  ⟨dot ws (wires.map (·.1.eval tau)), dot ws (wires.map (·.2.1.eval tau)),
    dot ws (wires.map (·.2.2.eval tau)), fun alpha beta ↦ by
      rw [dot_map_add, dot_map_add, dot_map_mul_left, dot_map_mul_left]⟩

namespace LinearG1

/-- The part over `gamma` is linear in the two shifts. -/
theorem exists_overGamma_eq (f : LinearG1 p) (q : Qap p) (tau : Fp p) :
    ∃ u v w : Fp p, ∀ alpha beta : Fp p,
      f.overGamma q ⟨tau, alpha, beta⟩ = beta * u + alpha * v + w := by
  obtain ⟨u, v, w, h⟩ := exists_dot_map_wireValues f.publicTerms
    ((q.a.zip (q.b.zip q.c)).take q.numPublic) tau
  refine ⟨u, v, w, fun alpha beta ↦ ?_⟩
  rw [overGamma, Qap.wireValues, ← List.map_take]
  exact h alpha beta

/-- The part over `delta` is linear in the two shifts: what belongs to the quotient does not depend
on them. -/
theorem exists_overDelta_eq (f : LinearG1 p) (q : Qap p) (tau : Fp p) :
    ∃ u v w : Fp p, ∀ alpha beta : Fp p,
      f.overDelta q ⟨tau, alpha, beta⟩ = beta * u + alpha * v + w := by
  obtain ⟨u, v, w, h⟩ := exists_dot_map_wireValues f.privateTerms
    ((q.a.zip (q.b.zip q.c)).drop q.numPublic) tau
  refine ⟨u, v, w + q.z.eval tau *
    dot f.quotientTerms (powersFrom tau 1 (q.numConstraints - 1)), fun alpha beta ↦ ?_⟩
  rw [overDelta, Qap.wireValues, ← List.map_drop, ← add_assoc]
  exact congrArg (· + _) (h alpha beta)

end LinearG1

namespace LinearProver

/-- **The public part of the verifier and the private part of the prover** are the values of the
wires, combined with one vector. -/
theorem dot_take_add_overDelta {q : Qap p} (hq : q.Aligned) (f : LinearG1 p) {x : List (Fp p)}
    (hx : (1 :: x).length = q.numPublic) (s : Phase1Secrets p) :
    dot (1 :: x) ((q.wireValues s).take q.numPublic) + f.overDelta q s =
      s.beta * (q.left (1 :: x ++ f.privateTerms)).eval s.tau +
        s.alpha * (q.right (1 :: x ++ f.privateTerms)).eval s.tau +
        ((q.product (1 :: x ++ f.privateTerms)).eval s.tau +
          q.z.eval s.tau * dot f.quotientTerms (powersFrom s.tau 1 (q.numConstraints - 1))) := by
  have htake : (1 :: x).length = ((q.wireValues s).take q.numPublic).length := by
    rw [hx, List.length_take, Qap.length_wireValues hq, Nat.min_eq_left hq.numPublic_le]
  rw [LinearG1.overDelta, ← add_assoc, ← dot_append htake, List.take_append_drop,
    Qap.dot_wireValues hq, add_assoc _ _ (_ * _)]

/-- **The equation for the combined polynomials.** When the scalars of a linear prover satisfy the
equation of the verifier for all secrets, the combinations with the public inputs and the
coefficients of the private wires satisfy the equation of the program up to a multiple of `z`. -/
theorem product_eq (hp : 4 < p) {q : Qap p} (hq : q.WellShaped) {f : LinearProver p}
    {x : List (Fp p)} (hx : (1 :: x).length = q.numPublic)
    (h : ∀ (s : Phase1Secrets p) (t : Phase2Secrets p), t.gamma ≠ 0 → t.delta ≠ 0 →
      (f.scalars q s t).a * (f.scalars q s t).b =
        VerifyingKey.target q s t x (f.scalars q s t).c) (tau : Fp p) :
    ∃ k : Fp p, (q.left (1 :: x ++ f.c.privateTerms)).eval tau *
      (q.right (1 :: x ++ f.c.privateTerms)).eval tau =
        (q.product (1 :: x ++ f.c.privateTerms)).eval tau + q.z.eval tau * k := by
  have hcoeffs : ∀ s : Phase1Secrets p,
      f.a.undivided q s * f.b.gamma = 0 ∧ f.a.overDelta q s * f.b.undivided q s = 0 ∧
        f.a.undivided q s * f.b.undivided q s + f.a.overGamma q s * f.b.gamma +
          f.a.overDelta q s * f.b.delta =
            s.alpha * s.beta + (dot (1 :: x) ((q.wireValues s).take q.numPublic) +
              f.c.overDelta q s) := by
    intro s
    rw [← add_assoc]
    exact separate_divisors hp fun gamma delta hgamma hdelta ↦ h s ⟨delta, gamma⟩ hgamma hdelta
  obtain ⟨u, v, w, hpublic⟩ := f.a.exists_overGamma_eq q tau
  obtain ⟨u', v', w', hprivate⟩ := f.a.exists_overDelta_eq q tau
  have hgamma : ∀ alpha beta : Fp p, (f.a.alpha * alpha + f.a.beta * beta +
      dot f.a.tau (powersFrom tau 1 q.numConstraints)) * f.b.gamma = 0 :=
    fun alpha beta ↦ (hcoeffs ⟨tau, alpha, beta⟩).1
  have hdelta : ∀ alpha beta : Fp p, (beta * u' + alpha * v' + w') *
      (f.b.beta * beta + dot f.b.tau (powersFrom tau 1 q.numConstraints)) = 0 := by
    intro alpha beta
    rw [← hprivate alpha beta]
    exact (hcoeffs ⟨tau, alpha, beta⟩).2.1
  have hsum : ∀ alpha beta : Fp p,
      (f.a.alpha * alpha + f.a.beta * beta + dot f.a.tau (powersFrom tau 1 q.numConstraints)) *
          (f.b.beta * beta + dot f.b.tau (powersFrom tau 1 q.numConstraints)) +
        (beta * u + alpha * v + w) * f.b.gamma + (beta * u' + alpha * v' + w') * f.b.delta =
          alpha * beta + (beta * (q.left (1 :: x ++ f.c.privateTerms)).eval tau +
            alpha * (q.right (1 :: x ++ f.c.privateTerms)).eval tau +
            ((q.product (1 :: x ++ f.c.privateTerms)).eval tau + q.z.eval tau *
              dot f.c.quotientTerms (powersFrom tau 1 (q.numConstraints - 1)))) := by
    intro alpha beta
    have hconstant := (hcoeffs ⟨tau, alpha, beta⟩).2.2
    rw [dot_take_add_overDelta hq.toAligned f.c hx, hpublic, hprivate] at hconstant
    exact hconstant
  exact ⟨_, separate_shifts (by omega) hgamma hdelta hsum⟩

section Groups

variable (G₁ G₂ Gₜ : Type) [AddCommGroup G₁] [Module (Fp p) G₁] [AddCommGroup G₂]
  [Module (Fp p) G₂] [CommGroup Gₜ] [DecidableEq Gₜ] [Generated G₁] [Generated G₂]
  [Pairing G₁ G₂ Gₜ] {m : RankOneSystem p} {numPublic : ℕ} {q : Qap p} {config : CeremonyConfig}
  {f : LinearProver p} {x : List (Fp p)}

/-- The proofs of a linear prover are accepted for the public inputs `x` under the keys of all
secrets that can be divided by. -/
def AlwaysAccepted (config : CeremonyConfig) (q : Qap p) (x : List (Fp p)) (f : LinearProver p) :
    Prop :=
  ∀ (s : Phase1Secrets p) (t : Phase2Secrets p), t.gamma ≠ 0 → t.delta ≠ 0 →
    ∃ (srs : ReferenceString G₁ G₂) (pk : ProvingKey p G₁ G₂),
      ReferenceString.ofSecrets config s = .ok srs ∧
      ProvingKey.ofReferenceString srs q t = .ok pk ∧
      pk.vk.verify x (f.prove pk) = .ok true

variable [BilinearPairing G₁ G₂ Gₜ]

/-- **The honest prover is always accepted**, so there is a prover as soundness supposes it for
every satisfying vector. -/
theorem exists_alwaysAccepted (hq : q.Lifts m numPublic) (hlt : m.numConstraints < p)
    {w : List (Fp p)} (hw : w.length = m.numWires) (hpublic : w.take numPublic = 1 :: x)
    (hsat : m.firstViolated w = .ok none)
    (hpowers₁ : 2 * m.numConstraints - 1 ≤ config.powersG1)
    (hpowers₂ : m.numConstraints ≤ config.powersG2) :
    ∃ f, AlwaysAccepted G₁ G₂ Gₜ config q x f ∧ f.c.privateTerms = w.drop numPublic := by
  obtain ⟨h, -, hle, hmul⟩ := hq.exists_scalars_mul hlt hw hpublic hsat
  have hnum := hq.numConstraints_eq
  have hpos := hq.constraints_pos
  refine ⟨honest q w h, fun s t hgamma hdelta ↦ ?_, by rw [honest, hq.numPublic_eq]⟩
  -- both phases succeed for all secrets, and the proof has the scalars of an honest one
  refine ⟨_, _, ReferenceString.ofSecrets_eq_ok_iff.2 ⟨by omega, by omega, rfl⟩,
    (ProvingKey.ofReferenceString_eq_ok_iff hq.wellShaped hgamma hdelta).2
      ⟨by omega, by omega, rfl⟩, ?_⟩
  rw [prove_ofExponents, scalars_honest hq.wellShaped hle]
  exact VerifyingKey.verify_ofScalars_of_eq hq.wellShaped.toAligned hgamma
    (hq.length_inputs hw hpublic) (hmul s t 0 0 hdelta)

variable {G₁ G₂ Gₜ}

/-- The scalars of a prover that is always accepted satisfy the equation. -/
theorem AlwaysAccepted.scalars_mul (hq : q.WellShaped)
    (hne : (Pairing.pair (Generated.generator : G₁) (Generated.generator : G₂) : Gₜ) ≠ 1)
    (h : AlwaysAccepted G₁ G₂ Gₜ config q x f) (s : Phase1Secrets p) (t : Phase2Secrets p)
    (hgamma : t.gamma ≠ 0) (hdelta : t.delta ≠ 0) :
    x.length + 1 = q.numPublic ∧ (f.scalars q s t).a * (f.scalars q s t).b =
      VerifyingKey.target q s t x (f.scalars q s t).c := by
  obtain ⟨srs, pk, hsrs, hpk, hverify⟩ := h s t hgamma hdelta
  obtain ⟨-, -, rfl⟩ := ReferenceString.ofSecrets_eq_ok_iff.1 hsrs
  obtain ⟨-, -, rfl⟩ := (ProvingKey.ofReferenceString_eq_ok_iff hq hgamma hdelta).1 hpk
  rw [prove_ofExponents] at hverify
  exact (VerifyingKey.verify_ofScalars_iff hne hq.toAligned hgamma).1 hverify

/-- **A linear prover that is always accepted knows a satisfying vector.** Every constraint holds
for the public inputs together with the coefficients that the prover puts on the private wires. -/
theorem satisfied_of_alwaysAccepted (hp : 4 < p) (hm : m.SameHeight) (hlt : m.numConstraints < p)
    (hq : Qap.ofRankOneSystem m numPublic = .ok q)
    (hne : (Pairing.pair (Generated.generator : G₁) (Generated.generator : G₂) : Gₜ) ≠ 1)
    (hlen : f.c.privateTerms.length = m.numWires - numPublic)
    (haccepted : AlwaysAccepted G₁ G₂ Gₜ config q x f) :
    m.firstViolated (1 :: x ++ f.c.privateTerms) = .ok none := by
  have hlifts := Qap.lifts_of_eq_ok hm hlt hq
  have hequation := haccepted.scalars_mul hlifts.wellShaped hne
  have hx : (1 :: x).length = q.numPublic :=
    (hequation ⟨0, 0, 0⟩ ⟨1, 1⟩ one_ne_zero one_ne_zero).1
  have hw : (1 :: x ++ f.c.privateTerms).length = m.numWires := by
    rw [List.length_append, hx, hlen, hlifts.numPublic_eq]
    exact Nat.add_sub_cancel' hlifts.numPublic_le
  rw [RankOneSystem.firstViolated_eq_none_iff hm hw]
  intro i hi
  -- at the point of the constraint the multiple of `z` is gone
  obtain ⟨k, hk⟩ := product_eq hp hlifts.wellShaped hx
    (fun s t hgamma hdelta ↦ (hequation s t hgamma hdelta).2) ((i + 1 : ℕ) : Fp p)
  rw [hlifts.eval_z_eq_zero hi, zero_mul, add_zero] at hk
  rw [← hlifts.eval_dividend_eq_zero_iff hw hi, Poly.eval_sub, Poly.eval_mul, hk, sub_self]

end Groups

theorem cubeSystem_satisfied : ∃ (q : Qap 101) (f : LinearProver 101),
    Qap.ofRankOneSystem Qap.cubeSystem 2 = .ok q ∧
    AlwaysAccepted (Fp 101) (Fp 101) (Multiplicative (Fp 101)) .default q [3] f ∧
    f.c.privateTerms = [9, 27] ∧
    Qap.cubeSystem.firstViolated ([1, 3] ++ f.c.privateTerms) = .ok none := by
  obtain ⟨q, hok, hlifts⟩ := Qap.exists_lifts (m := Qap.cubeSystem) ⟨rfl, rfl⟩ (by decide)
    (by decide) (by decide) (by decide : 0 < 2) (by decide)
  obtain ⟨f, haccepted, hprivate⟩ : ∃ f : LinearProver 101,
      AlwaysAccepted (Fp 101) (Fp 101) (Multiplicative (Fp 101)) .default q [3] f ∧
        f.c.privateTerms = [9, 27] :=
    exists_alwaysAccepted _ _ _ (w := [1, 3, 9, 27]) hlifts (by decide) rfl rfl (by decide)
      (by decide) (by decide)
  exact ⟨q, f, hok, haccepted, hprivate, satisfied_of_alwaysAccepted (by decide) ⟨rfl, rfl⟩
    (by decide) hok (by decide) (by rw [hprivate]; rfl) haccepted⟩

end LinearProver

end SuccinctProof
