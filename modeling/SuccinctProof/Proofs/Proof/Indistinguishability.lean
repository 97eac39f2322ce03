import Mathlib.Probability.Distributions.Uniform
import SuccinctProof.Proofs.Proof.Equation

/-!
# Witness indistinguishability

Under one key, blinding shifts each factor of a proof by a multiple of `delta`, and the product is
what the equation of the proof leaves for it. So a proof for one vector is also a proof for any
other vector with the same public values and a quotient: the blinding factors that lead to it are
those of the first vector, translated by the differences of the combined polynomials over `delta`
(`Proof.scalars_eq_iff`).

`ProvingKey.exists_equiv_blinding` says so for the keys that both phases make: the translation is a
permutation of the pairs of blinding factors, and for pairs drawn uniformly the proofs for both
vectors have the same distribution.
-/

namespace SuccinctProof

/-- A permutation leaves the uniform distribution as it is. -/
theorem map_uniformOfFintype {α : Type} [Fintype α] [Nonempty α] (e : α ≃ α) :
    (PMF.uniformOfFintype α).map e = PMF.uniformOfFintype α := by
  ext b
  rw [PMF.map_apply, tsum_eq_single (e.symm b)]
  · rw [if_pos (e.apply_symm_apply b).symm, PMF.uniformOfFintype_apply, PMF.uniformOfFintype_apply]
  · intro a ha
    refine if_neg fun h ↦ ha ?_
    rw [h, e.symm_apply_apply]

variable {p : ℕ} [Fact p.Prime] {q : Qap p} {s : Phase1Secrets p} {t : Phase2Secrets p}
  {w w' : List (Fp p)}

namespace Proof

/-! ### Scalars -/

/-- The translation of blinding factors that makes up for another vector: in each factor, the
difference of the combined polynomials divided by `delta`. -/
def translation (q : Qap p) (s : Phase1Secrets p) (t : Phase2Secrets p) (w w' : List (Fp p)) :
    Fp p × Fp p ≃ Fp p × Fp p :=
  Equiv.addRight (t.delta⁻¹ * ((q.left w).eval s.tau - (q.left w').eval s.tau),
    t.delta⁻¹ * ((q.right w).eval s.tau - (q.right w').eval s.tau))

/-- Two blinded values are equal for one difference of the blinding factors. -/
theorem blinded_eq_iff {d u u' k r r' : Fp p} (hd : d ≠ 0) :
    u + k + r * d = u' + k + r' * d ↔ r' = r + d⁻¹ * (u - u') := by
  have hcancel := Fp.inv_mul_cancel hd
  constructor
  · intro h
    linear_combination (r - r') * hcancel - d⁻¹ * h
  · rintro rfl
    linear_combination (u' - u) * hcancel

/-- **The product is determined by the factors and the public values.** -/
theorem scalars_c_eq (hq : q.Aligned) (hdelta : t.delta ≠ 0)
    (hpublic : w.take q.numPublic = w'.take q.numPublic) {h h' : Poly p}
    (hquotient : q.quotient w = .ok h) (hquotient' : q.quotient w' = .ok h') {r₁ r₂ r₁' r₂' : Fp p}
    (ha : (scalars q s t w h r₁ r₂).a = (scalars q s t w' h' r₁' r₂').a)
    (hb : (scalars q s t w h r₁ r₂).b = (scalars q s t w' h' r₁' r₂').b) :
    (scalars q s t w h r₁ r₂).c = (scalars q s t w' h' r₁' r₂').c := by
  have hmul := scalars_mul hq (s := s) hdelta hquotient r₁ r₂
  rw [ha, hb, scalars_mul hq hdelta hquotient' r₁' r₂', hpublic] at hmul
  exact (mul_right_cancel₀ hdelta (add_left_cancel hmul)).symm

/-- **Equal scalars come from translated blinding factors**, and from no others. -/
theorem scalars_eq_iff (hq : q.Aligned) (hdelta : t.delta ≠ 0)
    (hpublic : w.take q.numPublic = w'.take q.numPublic) {h h' : Poly p}
    (hquotient : q.quotient w = .ok h) (hquotient' : q.quotient w' = .ok h')
    {b b' : Fp p × Fp p} :
    scalars q s t w h b.1 b.2 = scalars q s t w' h' b'.1 b'.2 ↔ b' = translation q s t w w' b := by
  have ha : (scalars q s t w h b.1 b.2).a = (scalars q s t w' h' b'.1 b'.2).a ↔
      b'.1 = b.1 + t.delta⁻¹ * ((q.left w).eval s.tau - (q.left w').eval s.tau) :=
    blinded_eq_iff hdelta
  have hb : (scalars q s t w h b.1 b.2).b = (scalars q s t w' h' b'.1 b'.2).b ↔
      b'.2 = b.2 + t.delta⁻¹ * ((q.right w).eval s.tau - (q.right w').eval s.tau) :=
    blinded_eq_iff hdelta
  have htranslation : b' = translation q s t w w' b ↔
      b'.1 = b.1 + t.delta⁻¹ * ((q.left w).eval s.tau - (q.left w').eval s.tau) ∧
      b'.2 = b.2 + t.delta⁻¹ * ((q.right w).eval s.tau - (q.right w').eval s.tau) :=
    Prod.ext_iff
  rw [htranslation, ← ha, ← hb]
  constructor
  · intro heq
    exact ⟨congrArg Proof.a heq, congrArg Proof.b heq⟩
  · rintro ⟨ha, hb⟩
    exact Proof.ext ha hb (scalars_c_eq hq hdelta hpublic hquotient hquotient' ha hb)

/-! ### Proofs -/

variable {G₁ G₂ : Type} [AddCommGroup G₁] [Module (Fp p) G₁] [AddCommGroup G₂] [Module (Fp p) G₂]
  [Generated G₁] [Generated G₂]

/-- Proofs with different scalars are different, unless a generator is zero. -/
theorem ofScalars_injective (hg₁ : (Generated.generator : G₁) ≠ 0)
    (hg₂ : (Generated.generator : G₂) ≠ 0) :
    Function.Injective (ofScalars : Proof (Fp p) (Fp p) → Proof G₁ G₂) := by
  intro proof proof' h
  obtain ⟨ha, hb, hc⟩ := Proof.mk.inj h
  exact Proof.ext ((smul_left_inj_of_ne_zero hg₁).1 ha) ((smul_left_inj_of_ne_zero hg₂).1 hb)
    ((smul_left_inj_of_ne_zero hg₁).1 hc)

end Proof

variable {G₁ G₂ : Type} [AddCommGroup G₁] [Module (Fp p) G₁] [SplitMul (Fp p) G₁]
  [LawfulSplitMul (Fp p) G₁] [AddCommGroup G₂] [Module (Fp p) G₂] [Generated G₁] [Generated G₂]

namespace ProvingKey

/-- **Proofs do not tell which vector they are for.** Take the keys that both phases make for a
program, and two vectors with the same public values for which there are proofs. A permutation of
the pairs of blinding factors takes each pair to the one pair with which the other vector has the
same proof. So the proofs with uniform blinding factors have the same distribution. -/
theorem exists_equiv_blinding (hg₁ : (Generated.generator : G₁) ≠ 0)
    (hg₂ : (Generated.generator : G₂) ≠ 0) {config : CeremonyConfig} {srs : ReferenceString G₁ G₂}
    {pk : ProvingKey p G₁ G₂} (hsrs : ReferenceString.ofSecrets config s = .ok srs)
    (hpk : ofReferenceString srs q t = .ok pk)
    (hpublic : w.take q.numPublic = w'.take q.numPublic)
    (hw : ∃ r₁ r₂ proof, Proof.ofWitness pk w r₁ r₂ = .ok proof)
    (hw' : ∃ r₁ r₂ proof, Proof.ofWitness pk w' r₁ r₂ = .ok proof) :
    ∃ e : Fp p × Fp p ≃ Fp p × Fp p,
      (∀ b, ∃ proof, Proof.ofWitness pk w b.1 b.2 = .ok proof ∧
        ∀ b', Proof.ofWitness pk w' b'.1 b'.2 = .ok proof ↔ b' = e b) ∧
      (PMF.uniformOfFintype (Fp p × Fp p)).map (fun b ↦ Proof.ofWitness pk w b.1 b.2) =
        (PMF.uniformOfFintype (Fp p × Fp p)).map fun b ↦ Proof.ofWitness pk w' b.1 b.2 := by
  obtain ⟨hq, -, hdelta, rfl⟩ := eq_ofExponents hsrs hpk
  obtain ⟨_, _, _, hproof⟩ := hw
  obtain ⟨_, _, _, hproof'⟩ := hw'
  obtain ⟨h, hquotient, hlen, hleft, hright, -⟩ :=
    (Proof.ofWitness_ofExponents_eq_ok_iff hq).1 hproof
  obtain ⟨h', hquotient', hlen', hleft', hright', -⟩ :=
    (Proof.ofWitness_ofExponents_eq_ok_iff hq).1 hproof'
  -- success does not depend on the blinding factors, so both vectors have a proof for all of them
  have hok : ∀ b : Fp p × Fp p, Proof.ofWitness (ofExponents q s t : ProvingKey p G₁ G₂) w b.1 b.2 =
      .ok (Proof.scalars q s t w h b.1 b.2).ofScalars :=
    fun b ↦ Proof.ofWitness_ofExponents hq hquotient hlen hleft hright b.1 b.2
  have hok' : ∀ b : Fp p × Fp p,
      Proof.ofWitness (ofExponents q s t : ProvingKey p G₁ G₂) w' b.1 b.2 =
        .ok (Proof.scalars q s t w' h' b.1 b.2).ofScalars :=
    fun b ↦ Proof.ofWitness_ofExponents hq hquotient' hlen' hleft' hright' b.1 b.2
  have hsame : ∀ b b', Proof.ofWitness (ofExponents q s t : ProvingKey p G₁ G₂) w' b'.1 b'.2 =
      .ok (Proof.scalars q s t w h b.1 b.2).ofScalars ↔ b' = Proof.translation q s t w w' b := by
    intro b b'
    rw [hok', Except.ok.injEq, (Proof.ofScalars_injective hg₁ hg₂).eq_iff, eq_comm,
      Proof.scalars_eq_iff hq hdelta hpublic hquotient hquotient']
  refine ⟨Proof.translation q s t w w', fun b ↦ ⟨_, hok b, hsame b⟩, ?_⟩
  have hcomp : (fun b : Fp p × Fp p ↦
      Proof.ofWitness (ofExponents q s t : ProvingKey p G₁ G₂) w b.1 b.2) =
      (fun b : Fp p × Fp p ↦
        Proof.ofWitness (ofExponents q s t : ProvingKey p G₁ G₂) w' b.1 b.2) ∘
        Proof.translation q s t w w' := by
    funext b
    exact (hok b).trans ((hsame b _).2 rfl).symm
  rw [hcomp, ← PMF.map_comp, map_uniformOfFintype]

end ProvingKey

/-- A program for a square root of a public value: the square of the third wire is the second
wire. -/
def squareRoot (p : ℕ) [Modulus p] : Qap p where
  a := [⟨[0]⟩, ⟨[0]⟩, ⟨[1]⟩]
  b := [⟨[0]⟩, ⟨[0]⟩, ⟨[1]⟩]
  c := [⟨[0]⟩, ⟨[1]⟩, ⟨[0]⟩]
  z := ⟨[-1, 1]⟩
  numPublic := 2

/-- The two roots of nine cannot be told apart. -/
theorem squareRoot_blinding : ∃ (srs : ReferenceString (Fp 101) (Fp 101))
    (pk : ProvingKey 101 (Fp 101) (Fp 101)),
    (Generated.generator : Fp 101) ≠ 0 ∧
    ReferenceString.ofSecrets .default (⟨5, 6, 7⟩ : Phase1Secrets 101) = .ok srs ∧
    ProvingKey.ofReferenceString srs (squareRoot 101) ⟨8, 9⟩ = .ok pk ∧
    ([1, 9, 3] : List (Fp 101)).take 2 = ([1, 9, -3] : List (Fp 101)).take 2 ∧
    (∃ r₁ r₂ proof, Proof.ofWitness pk [1, 9, 3] r₁ r₂ = .ok proof) ∧
    (∃ r₁ r₂ proof, Proof.ofWitness pk [1, 9, -3] r₁ r₂ = .ok proof) ∧
    ∃ e : Fp 101 × Fp 101 ≃ Fp 101 × Fp 101,
      (∀ b, ∃ proof, Proof.ofWitness pk [1, 9, 3] b.1 b.2 = .ok proof ∧
        ∀ b', Proof.ofWitness pk [1, 9, -3] b'.1 b'.2 = .ok proof ↔ b' = e b) ∧
      (PMF.uniformOfFintype (Fp 101 × Fp 101)).map (fun b ↦ Proof.ofWitness pk [1, 9, 3] b.1 b.2) =
        (PMF.uniformOfFintype (Fp 101 × Fp 101)).map fun b ↦
          Proof.ofWitness pk [1, 9, -3] b.1 b.2 := by
  obtain ⟨srs, pk, hsrs, hpk, hw, hw'⟩ : ∃ (srs : ReferenceString (Fp 101) (Fp 101))
      (pk : ProvingKey 101 (Fp 101) (Fp 101)),
      ReferenceString.ofSecrets .default (⟨5, 6, 7⟩ : Phase1Secrets 101) = .ok srs ∧
      ProvingKey.ofReferenceString srs (squareRoot 101) ⟨8, 9⟩ = .ok pk ∧
      (∃ r₁ r₂ proof, Proof.ofWitness pk [1, 9, 3] r₁ r₂ = .ok proof) ∧
      ∃ r₁ r₂ proof, Proof.ofWitness pk [1, 9, -3] r₁ r₂ = .ok proof :=
    ⟨_, ProvingKey.ofExponents (squareRoot 101) ⟨5, 6, 7⟩ ⟨8, 9⟩, rfl, by decide +kernel,
      ⟨0, 0, _, rfl⟩, ⟨0, 0, _, rfl⟩⟩
  have hg : (Generated.generator : Fp 101) ≠ 0 := by decide
  exact ⟨srs, pk, hg, hsrs, hpk, rfl, hw, hw',
    ProvingKey.exists_equiv_blinding hg hg hsrs hpk rfl hw hw'⟩

end SuccinctProof
