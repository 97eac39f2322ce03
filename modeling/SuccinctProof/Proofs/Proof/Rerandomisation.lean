import SuccinctProof.Proofs.Proof.Indistinguishability
import SuccinctProof.Proofs.Random.Sampler

/-!
# Rerandomisation

A rerandomised proof multiplies the pairing of its factors by the pairing of a multiple of `a` with
`delta`, and the pairing of its product with `delta` by the same. So it gets the answer that the
proof got, whatever the key and the proof are (`VerifyingKey.verify_rerandomized`).

For the keys that both phases make, the proofs of a vector are all triples of scalars that satisfy
the equation of a proof, each with its own pair of blinding factors (`Proof.existsUnique_scalars`).
Rerandomisation keeps the equation, so it turns a proof of a vector into another one.
-/

namespace SuccinctProof

variable {p : ℕ} [Fact p.Prime] {G₁ G₂ Gₜ : Type} [AddCommGroup G₁] [Module (Fp p) G₁]
  [AddCommGroup G₂] [Module (Fp p) G₂]

namespace Proof

/-! ### The factors -/

theorem rerandomizers_le {n n' : ℕ} (hn : n ≤ n') :
    (rerandomizers n : Sampler (Fp p × Fp p)).Le (rerandomizers n') :=
  .retry (.bind (Sampler.uniform_le hn) fun _ ↦ .bind (Sampler.uniform_le hn) fun _ ↦ .refl _) hn

/-- The loop only ends with factors that are both different from zero. -/
theorem ne_zero_of_rerandomizers {n : ℕ} {stream rest : WordStream} {k : Fp p × Fp p}
    (h : rerandomizers n stream = some (k, rest)) : k.1 ≠ 0 ∧ k.2 ≠ 0 := by
  obtain ⟨s₀, hattempt⟩ := Sampler.exists_of_retry_eq_some h
  obtain ⟨k₁, s₁, -, hattempt⟩ := Sampler.bind_eq_some_iff.1 hattempt
  obtain ⟨k₂, s₂, -, hattempt⟩ := Sampler.bind_eq_some_iff.1 hattempt
  have haccepted := congrArg Prod.fst (Sampler.pure_eq_some_iff.1 hattempt)
  dsimp only at haccepted
  split at haccepted
  · exact nomatch haccepted
  · next hne => exact Option.some.inj haccepted ▸ not_or.1 hne

/-! ### The rerandomised proof -/

/-- The proof scaled and shifted by two factors, of which the first has an inverse. -/
def rerandomized (vk : VerifyingKey G₁ G₂) (proof : Proof G₁ G₂) (k : Fp p × Fp p) :
    Proof G₁ G₂ where
  a := k.1⁻¹ • proof.a
  b := k.1 • proof.b + (k.1 * k.2) • vk.deltaG2
  c := proof.c + k.2 • proof.a

theorem rerandomizeWith_of_ne_zero (vk : VerifyingKey G₁ G₂) (proof : Proof G₁ G₂)
    {k : Fp p × Fp p} (hk : k.1 ≠ 0) :
    proof.rerandomizeWith vk k.1 k.2 = .ok (proof.rerandomized vk k) := by
  rw [rerandomizeWith, Fp.inverse_of_ne_zero hk]
  rfl

/-- **Rerandomisation is never refused.** Once its loop has ended, it gives the rerandomised proof,
with every larger number of attempts too. -/
theorem rerandomize_of_rerandomizers (vk : VerifyingKey G₁ G₂) (proof : Proof G₁ G₂)
    {attempts : ℕ} {stream rest : WordStream} {k : Fp p × Fp p}
    (hends : rerandomizers attempts stream = some (k, rest)) {n : ℕ} (hn : attempts ≤ n) :
    rerandomize p vk proof n stream = some (.ok (proof.rerandomized vk k), rest) := by
  rw [← rerandomizeWith_of_ne_zero vk proof (ne_zero_of_rerandomizers hends).1]
  exact Sampler.bind_eq_some_iff.2 ⟨k, rest, rerandomizers_le hn _ _ hends, rfl⟩

end Proof

/-! ### Validity -/

/-- **A rerandomised proof gets the answer that the proof got**, under any key. -/
theorem VerifyingKey.verify_rerandomized [CommGroup Gₜ] [DecidableEq Gₜ] [Pairing G₁ G₂ Gₜ]
    [BilinearPairing G₁ G₂ Gₜ] (vk : VerifyingKey G₁ G₂) (proof : Proof G₁ G₂) {k : Fp p × Fp p}
    (hk : k.1 ≠ 0) (x : List (Fp p)) :
    vk.verify x (proof.rerandomized vk k) = vk.verify x proof := by
  have hcancel := Fp.inv_mul_cancel hk
  -- both sides of the equation gain the same factor
  have hleft : (Pairing.pair (proof.rerandomized vk k).a (proof.rerandomized vk k).b : Gₜ) =
      Pairing.pair proof.a proof.b * Pairing.pair (k.2 • proof.a) vk.deltaG2 := by
    rw [Proof.rerandomized, BilinearPairing.pair_add_right, Pairing.pair_smul_comm,
      Pairing.pair_smul_comm, smul_smul, smul_smul, mul_comm k.1, hcancel, one_smul, mul_comm k.1,
      mul_assoc, mul_comm k.1, hcancel, mul_one]
  have hright : (Pairing.pair (proof.rerandomized vk k).c vk.deltaG2 : Gₜ) =
      Pairing.pair proof.c vk.deltaG2 * Pairing.pair (k.2 • proof.a) vk.deltaG2 :=
    BilinearPairing.pair_add_left _ _ _
  rw [verify, verify]
  cases vk.commitInputs x with
  | error e => rfl
  | ok inputTerm =>
    rw [ok_bind, ok_bind, hleft, hright, ← mul_assoc]
    simp only [mul_left_inj]

/-! ### Proofs of a vector -/

namespace Proof

section Scalars

variable {q : Qap p} {s : Phase1Secrets p} {t : Phase2Secrets p} {w : List (Fp p)} {h : Poly p}

/-- **Scalars that satisfy the equation are those of one pair of blinding factors.** The factors fix
the blinding, and the equation leaves one product for them. -/
theorem existsUnique_scalars (hq : q.Aligned) (hdelta : t.delta ≠ 0)
    (hquotient : q.quotient w = .ok h) {proof : Proof (Fp p) (Fp p)}
    (hmul : proof.a * proof.b = s.alpha * s.beta +
      dot (w.take q.numPublic) ((q.wireValues s).take q.numPublic) + proof.c * t.delta) :
    ∃! b : Fp p × Fp p, scalars q s t w h b.1 b.2 = proof := by
  set b₀ : Fp p × Fp p := (t.delta⁻¹ * (proof.a - ((q.left w).eval s.tau + s.alpha)),
    t.delta⁻¹ * (proof.b - ((q.right w).eval s.tau + s.beta))) with hb₀
  have hfactors : ∀ b : Fp p × Fp p, (scalars q s t w h b.1 b.2).a = proof.a ∧
      (scalars q s t w h b.1 b.2).b = proof.b ↔ b = b₀ := by
    intro b
    rw [hb₀, Prod.ext_iff, ← Fp.eq_add_mul_iff hdelta, ← Fp.eq_add_mul_iff hdelta]
    exact and_congr eq_comm eq_comm
  refine ⟨b₀, ?_, fun b hb ↦ (hfactors b).1 ⟨congrArg Proof.a hb, congrArg Proof.b hb⟩⟩
  obtain ⟨ha, hb⟩ := (hfactors b₀).2 rfl
  refine Proof.ext ha hb (mul_right_cancel₀ hdelta (add_left_cancel (Eq.trans ?_ hmul)))
  rw [← scalars_mul hq hdelta hquotient, ha, hb]

end Scalars

section Generators

variable [Generated G₁] [Generated G₂] {q : Qap p} {s : Phase1Secrets p} {t : Phase2Secrets p}

/-- Rerandomising multiples of the generators rerandomises their scalars. -/
theorem rerandomized_ofScalars (proof : Proof (Fp p) (Fp p)) (k : Fp p × Fp p) :
    (ofScalars proof).rerandomized (ProvingKey.ofExponents q s t : ProvingKey p G₁ G₂).vk k =
      ofScalars (proof.rerandomized
        (ProvingKey.ofExponents q s t : ProvingKey p (Fp p) (Fp p)).vk k) := by
  refine Proof.ext ?_ ?_ ?_
  · exact smul_smul _ _ _
  · simp only [rerandomized, ofScalars, ProvingKey.ofExponents, smul_smul, add_smul, smul_eq_mul,
      Generated.generator, mul_one]
  · simp only [rerandomized, ofScalars, smul_smul, add_smul, smul_eq_mul]

variable [SplitMul (Fp p) G₁] [LawfulSplitMul (Fp p) G₁]

/-- **A rerandomised proof of a vector is the proof for one other pair of blinding factors.** -/
theorem existsUnique_ofWitness_rerandomized (hg₁ : (Generated.generator : G₁) ≠ 0)
    (hg₂ : (Generated.generator : G₂) ≠ 0) (hq : q.Aligned) (hdelta : t.delta ≠ 0)
    {w : List (Fp p)} {r₁ r₂ : Fp p} {proof : Proof G₁ G₂}
    (hproof : ofWitness (ProvingKey.ofExponents q s t : ProvingKey p G₁ G₂) w r₁ r₂ = .ok proof)
    {k : Fp p × Fp p} (hk : k.1 ≠ 0) :
    ∃! b : Fp p × Fp p,
      ofWitness (ProvingKey.ofExponents q s t : ProvingKey p G₁ G₂) w b.1 b.2 =
        .ok (proof.rerandomized (ProvingKey.ofExponents q s t : ProvingKey p G₁ G₂).vk k) := by
  obtain ⟨h, hquotient, hlen, hleft, hright, rfl⟩ := (ofWitness_ofExponents_eq_ok_iff hq).1 hproof
  have hsame : ∀ b : Fp p × Fp p, ofWitness (ProvingKey.ofExponents q s t : ProvingKey p G₁ G₂) w
      b.1 b.2 = .ok ((ofScalars (scalars q s t w h r₁ r₂)).rerandomized
        (ProvingKey.ofExponents q s t : ProvingKey p G₁ G₂).vk k) ↔
      scalars q s t w h b.1 b.2 = (scalars q s t w h r₁ r₂).rerandomized
        (ProvingKey.ofExponents q s t : ProvingKey p (Fp p) (Fp p)).vk k := by
    intro b
    rw [ofWitness_ofExponents hq hquotient hlen hleft hright, Except.ok.injEq,
      rerandomized_ofScalars, (ofScalars_injective hg₁ hg₂).eq_iff]
  simp only [hsame]
  refine existsUnique_scalars hq hdelta hquotient ?_
  have hmul := scalars_mul hq (s := s) hdelta hquotient r₁ r₂
  have hcancel := Fp.inv_mul_cancel hk
  set a := (scalars q s t w h r₁ r₂).a
  set b := (scalars q s t w h r₁ r₂).b
  simp only [rerandomized, ProvingKey.ofExponents, Generated.generator, smul_eq_mul, mul_one]
  linear_combination hmul + (a * b + k.2 * t.delta * a) * hcancel

end Generators

end Proof

/-! ### The whole operation -/

variable [Generated G₁] [Generated G₂] [SplitMul (Fp p) G₁] [LawfulSplitMul (Fp p) G₁]
  [CommGroup Gₜ] [DecidableEq Gₜ] [Pairing G₁ G₂ Gₜ] [BilinearPairing G₁ G₂ Gₜ]

namespace Proof

/-- **Rerandomisation preserves validity, and stays among the proofs of a vector.** Take any key,
any proof and any stream on which the loop ends. Then rerandomisation gives a proof, however many
attempts it is allowed beyond those that the loop took, and for all inputs it gets the answer that
the first proof got, refusals included. If the key is one that both phases make, and the proof is
one for a vector, then the other proof is one for this vector too, with exactly one pair of blinding
factors. -/
theorem verify_rerandomize_and_existsUnique (hg₁ : (Generated.generator : G₁) ≠ 0)
    (hg₂ : (Generated.generator : G₂) ≠ 0) (vk : VerifyingKey G₁ G₂) (proof : Proof G₁ G₂)
    {attempts : ℕ} {stream rest : WordStream} {k : Fp p × Fp p}
    (hends : rerandomizers attempts stream = some (k, rest)) :
    ∃ proof', (∀ n, attempts ≤ n → rerandomize p vk proof n stream = some (.ok proof', rest)) ∧
      (∀ x : List (Fp p), vk.verify x proof' = vk.verify x proof) ∧
      ∀ (config : CeremonyConfig) (s : Phase1Secrets p) (t : Phase2Secrets p) (q : Qap p)
        (srs : ReferenceString G₁ G₂) (pk : ProvingKey p G₁ G₂) (w : List (Fp p)) (r₁ r₂ : Fp p),
        ReferenceString.ofSecrets config s = .ok srs →
        ProvingKey.ofReferenceString srs q t = .ok pk → pk.vk = vk →
        ofWitness pk w r₁ r₂ = .ok proof →
        ∃! b : Fp p × Fp p, ofWitness pk w b.1 b.2 = .ok proof' := by
  have hk := (ne_zero_of_rerandomizers hends).1
  refine ⟨proof.rerandomized vk k, fun n hn ↦ rerandomize_of_rerandomizers vk proof hends hn,
    vk.verify_rerandomized proof hk, ?_⟩
  rintro config s t q srs pk w r₁ r₂ hsrs hpk rfl hproof
  obtain ⟨hq, -, hdelta, rfl⟩ := ProvingKey.eq_ofExponents hsrs hpk
  exact existsUnique_ofWitness_rerandomized hg₁ hg₂ hq hdelta hproof hk

/-- A stream whose first draw of two factors is refused, since one of them is zero. -/
def secondDraw : WordStream := .seeded [0, 0, 0, 0, 5, 0, 0, 0, 5, 0, 0, 0, 7, 0, 0, 0] 0

/-- The proof that three is a root of nine, rerandomised. -/
theorem squareRoot_rerandomize : ∃ (srs : ReferenceString (Fp 101) (Fp 101))
    (pk : ProvingKey 101 (Fp 101) (Fp 101)) (proof proof' : Proof (Fp 101) (Fp 101))
    (k : Fp 101 × Fp 101) (rest : WordStream),
    (Generated.generator : Fp 101) ≠ 0 ∧
    rerandomizers 2 secondDraw = some (k, rest) ∧
    ReferenceString.ofSecrets .default (⟨5, 6, 7⟩ : Phase1Secrets 101) = .ok srs ∧
    ProvingKey.ofReferenceString srs (squareRoot 101) ⟨8, 9⟩ = .ok pk ∧
    ofWitness pk [1, 9, 3] 10 0 = .ok proof ∧
    (∀ n, 2 ≤ n → rerandomize 101 pk.vk proof n secondDraw = some (.ok proof', rest)) ∧
    (∀ x : List (Fp 101), pk.vk.verify x proof' = pk.vk.verify x proof) ∧
    ∃! b : Fp 101 × Fp 101, ofWitness pk [1, 9, 3] b.1 b.2 = .ok proof' := by
  obtain ⟨srs, pk, proof, hsrs, hpk, hproof⟩ : ∃ (srs : ReferenceString (Fp 101) (Fp 101))
      (pk : ProvingKey 101 (Fp 101) (Fp 101)) (proof : Proof (Fp 101) (Fp 101)),
      ReferenceString.ofSecrets .default (⟨5, 6, 7⟩ : Phase1Secrets 101) = .ok srs ∧
      ProvingKey.ofReferenceString srs (squareRoot 101) ⟨8, 9⟩ = .ok pk ∧
      ofWitness pk [1, 9, 3] 10 0 = .ok proof :=
    ⟨_, ProvingKey.ofExponents (squareRoot 101) ⟨5, 6, 7⟩ ⟨8, 9⟩, _, rfl, by decide +kernel, rfl⟩
  have hsome : (rerandomizers (p := 101) 2 secondDraw).isSome = true := by decide +kernel
  obtain ⟨⟨k, rest⟩, hends⟩ := Option.isSome_iff_exists.1 hsome
  have hg : (Generated.generator : Fp 101) ≠ 0 := by decide
  obtain ⟨proof', hrerandomize, hverify, hunique⟩ :=
    verify_rerandomize_and_existsUnique hg hg pk.vk proof hends
  exact ⟨srs, pk, proof, proof', k, rest, hg, hends, hsrs, hpk, hproof, hrerandomize, hverify,
    hunique _ _ _ _ _ _ _ _ _ hsrs hpk rfl hproof⟩

end Proof

end SuccinctProof
