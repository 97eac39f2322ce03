import SuccinctProof.Proof.Verify
import SuccinctProof.Proofs.PairingGroup
import SuccinctProof.Proofs.Refusal

/-!
# Prepared verification

A prepared key brings the pairings with `gamma` and `delta` to the other side of the equation, where
they stand as pairings with negatives, and takes what is left as one product. On any elements the
two equations say the same (`PreparedKey.verifyCommitted_ofKey`), so nothing is assumed of the key
or of the proof: only that the pairing is bilinear, and that a product of pairings is their product.

Both verifications commit to the inputs in the same way, which is also the only way in which they
can refuse (`VerifyingKey.commitInputs_eq_ite`).
-/

namespace SuccinctProof

variable {p : ℕ} [Modulus p] {G₁ G₂ Gₜ : Type} [AddCommGroup G₁] [Module (Fp p) G₁]

/-- **The commitment to inputs is the combination of the terms of the key with one and the
inputs**, and is refused exactly for another number of inputs. -/
theorem VerifyingKey.commitInputs_eq_ite (vk : VerifyingKey G₁ G₂) (x : List (Fp p)) :
    vk.commitInputs x =
      if x.length + 1 = vk.publicTerms.length then .ok (combineMultiples (1 :: x) vk.publicTerms)
      else .error .malformedKey := by
  rw [commitInputs]
  split
  · next one terms hterms =>
    have hcombine : combineMultiples (1 :: x) (one :: terms) = one + combineMultiples x terms := by
      rw [combineMultiples, List.zipWith_cons_cons, List.sum_cons, one_smul, combineMultiples]
    simp only [hterms, List.length_cons, Nat.add_right_cancel_iff, hcombine]
  · next hterms =>
    rw [hterms, List.length_nil, if_neg (Nat.succ_ne_zero _)]

variable [AddCommGroup G₂] [CommGroup Gₜ] [DecidableEq Gₜ] [Pairing G₁ G₂ Gₜ]
  [BilinearPairing G₁ G₂ Gₜ] [LawfulPairProduct G₁ G₂ Gₜ]

namespace PreparedKey

omit [Module (Fp p) G₁] in
/-- **One product of pairings decides the equation between four.** -/
theorem verifyCommitted_ofKey (vk : VerifyingKey G₁ G₂) (proof : Proof G₁ G₂) (inputTerm : G₁) :
    (ofKey vk).verifyCommitted proof inputTerm =
      decide (Pairing.pair proof.a proof.b =
        Pairing.pair vk.alphaG1 vk.betaG2 * Pairing.pair inputTerm vk.gammaG2 *
          (Pairing.pair proof.c vk.deltaG2 : Gₜ)) := by
  rw [verifyCommitted, LawfulPairProduct.pairProduct_eq]
  refine decide_eq_decide.2 ?_
  simp only [ofKey, List.map_cons, List.map_nil, List.prod_cons, List.prod_nil, mul_one,
    Pairing.pair_neg_right]
  rw [← mul_inv, mul_inv_eq_iff_eq_mul, mul_assoc]

/-- **Prepared verification agrees with plain verification**, on any key, any inputs and any proof.
Both refuse exactly the inputs whose number does not fit the key, with the same complaint. Otherwise
both give the answer that the commitment to the inputs gets. -/
theorem verify_ofKey (vk : VerifyingKey G₁ G₂) (x : List (Fp p)) (proof : Proof G₁ G₂) :
    (ofKey vk).verify x proof = vk.verify x proof ∧
      if x.length + 1 = vk.publicTerms.length then
        ∃ inputTerm, (ofKey vk).commitInputs x = .ok inputTerm ∧
          vk.verify x proof = .ok ((ofKey vk).verifyCommitted proof inputTerm)
      else vk.verify x proof = .error .malformedKey := by
  have hcommit : (ofKey vk : PreparedKey G₁ G₂ Gₜ).commitInputs x = vk.commitInputs x := rfl
  rw [verify, VerifyingKey.verify, hcommit, VerifyingKey.commitInputs_eq_ite]
  by_cases hx : x.length + 1 = vk.publicTerms.length
  · rw [if_pos hx, if_pos hx, ok_bind, ok_bind, ← verifyCommitted_ofKey]
    exact ⟨rfl, _, rfl, rfl⟩
  · rw [if_neg hx, if_neg hx]
    exact ⟨rfl, rfl⟩

/-- A key over the scalars for one input. -/
def ofSmallScalars (p : ℕ) [Modulus p] : VerifyingKey (Fp p) (Fp p) :=
  ⟨.ofNat 2, .ofNat 3, .ofNat 5, .ofNat 7, [.ofNat 11, .ofNat 13]⟩

/-- A proof that no prover made, and that fits the equation, is accepted by both. -/
theorem verify_ofSmallScalars : ∃ inputTerm : Fp 101,
    (ofKey (ofSmallScalars 101)).commitInputs ([4] : List (Fp 101)) = .ok inputTerm ∧
      (ofSmallScalars 101).verify ([4] : List (Fp 101)) ⟨5, 5, 1⟩ =
        .ok ((ofKey (ofSmallScalars 101)).verifyCommitted ⟨5, 5, 1⟩ inputTerm) ∧
      (ofKey (ofSmallScalars 101)).verify ([4] : List (Fp 101)) ⟨5, 5, 1⟩ = .ok true := by
  obtain ⟨hsame, hanswer⟩ := verify_ofKey (ofSmallScalars 101) ([4] : List (Fp 101)) ⟨5, 5, 1⟩
  rw [if_pos (by decide)] at hanswer
  obtain ⟨inputTerm, hcommit, hverify⟩ := hanswer
  refine ⟨inputTerm, hcommit, hverify, ?_⟩
  rw [hsame]
  decide +kernel

end PreparedKey

end SuccinctProof
