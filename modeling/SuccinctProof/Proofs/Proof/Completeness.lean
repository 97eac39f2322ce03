import SuccinctProof.Proofs.Netlist.Rows
import SuccinctProof.Proofs.Proof.Equation

/-!
# Completeness

The scalars of the proof for a satisfying vector satisfy the equation that a verifier checks, since
the public values of the vector are the constant one and the inputs
(`Qap.Lifts.exists_scalars_mul`). What the blinding factors add on one side they add on the other.

`Circuit.proof_accepted` puts all stages together, from a circuit to the answer of the verifier. The
stages before the proof come from `Netlist.IsFlattening`, `Netlist.IsSolution` and `Qap.Lifts`, the
keys from `ReferenceString.foldlM_contribute` and `ProvingKey.ofReferenceString_eq_ok_iff`.
-/

namespace SuccinctProof

variable {p : ℕ} [Fact p.Prime]

namespace Qap.Lifts

variable {q : Qap p} {m : RankOneSystem p} {numPublic : ℕ} {w x : List (Fp p)}

/-- The public part of a vector is the constant and the public inputs. -/
theorem length_inputs (hq : q.Lifts m numPublic) (hw : w.length = m.numWires)
    (hpublic : w.take numPublic = 1 :: x) : x.length + 1 = q.numPublic := by
  rw [← List.length_cons, ← hpublic, List.length_take, hw, hq.numPublic_eq]
  exact Nat.min_eq_left hq.numPublic_le

/-- **A satisfying vector has a quotient with which the equation holds**, for all secrets and all
blinding factors. -/
theorem exists_scalars_mul (hq : q.Lifts m numPublic) (hlt : m.numConstraints < p)
    (hw : w.length = m.numWires) (hpublic : w.take numPublic = 1 :: x)
    (hsat : m.firstViolated w = .ok none) :
    ∃ h, q.quotient w = .ok h ∧ h.length ≤ q.numConstraints - 1 ∧
      ∀ (s : Phase1Secrets p) (t : Phase2Secrets p) (r₁ r₂ : Fp p), t.delta ≠ 0 →
        (Proof.scalars q s t w h r₁ r₂).a * (Proof.scalars q s t w h r₁ r₂).b =
          VerifyingKey.target q s t x (Proof.scalars q s t w h r₁ r₂).c := by
  obtain ⟨h, hquotient, hlen, -⟩ := hq.quotient_of_satisfied hlt hw hsat
  refine ⟨h, hquotient, by rw [hlen, hq.numConstraints_eq], fun s t r₁ r₂ hdelta ↦ ?_⟩
  rw [← hq.numPublic_eq] at hpublic
  rw [Proof.scalars_mul hq.wellShaped.toAligned hdelta hquotient, hpublic, VerifyingKey.target]

end Qap.Lifts

variable {G₁ G₂ Gₜ : Type} [AddCommGroup G₁] [Module (Fp p) G₁] [SplitMul (Fp p) G₁]
  [LawfulSplitMul (Fp p) G₁] [AddCommGroup G₂] [Module (Fp p) G₂] [CommGroup Gₜ] [DecidableEq Gₜ]
  [Generated G₁] [Generated G₂] [Pairing G₁ G₂ Gₜ] [BilinearPairing G₁ G₂ Gₜ]

/-- **A satisfying vector has a proof, and the proof is accepted**, under the key of any secrets
that can be divided by. -/
theorem Qap.Lifts.exists_accepted {q : Qap p} {m : RankOneSystem p} {numPublic : ℕ}
    (hq : q.Lifts m numPublic) (hlt : m.numConstraints < p) {s : Phase1Secrets p}
    {t : Phase2Secrets p} (hgamma : t.gamma ≠ 0) (hdelta : t.delta ≠ 0) {w x : List (Fp p)}
    (hw : w.length = m.numWires) (hpublic : w.take numPublic = 1 :: x)
    (hsat : m.firstViolated w = .ok none) (r₁ r₂ : Fp p) :
    ∃ proof, Proof.ofWitness (ProvingKey.ofExponents q s t : ProvingKey p G₁ G₂) w r₁ r₂ =
      .ok proof ∧
      (ProvingKey.ofExponents q s t : ProvingKey p G₁ G₂).vk.verify x proof = .ok true := by
  obtain ⟨h, hquotient, hle, hmul⟩ := hq.exists_scalars_mul hlt hw hpublic hsat
  have hshape := hq.wellShaped
  exact ⟨_, Proof.ofWitness_ofExponents hshape.toAligned hquotient hle
    (Proof.length_left_le hshape w) (Proof.length_right_le hshape w) r₁ r₂,
    VerifyingKey.verify_ofScalars_of_eq hshape.toAligned hgamma (hq.length_inputs hw hpublic)
      (hmul s t r₁ r₂ hdelta)⟩

/-- **An honest run is accepted.** Take a circuit that is accepted, with fewer gates than the
modulus, inputs for which the solver finds a witness, secrets of a first phase with enough powers,
any list of contributions, secrets of a second phase other than zero, and any blinding factors. Then
every stage gives a result, and the verifier accepts the proof for exactly these inputs.

The number of inputs is held in 64 binary digits with the constant one counted, which is no
restriction on a list that fits in memory. -/
theorem Circuit.proof_accepted {c : Circuit} {n : Netlist} (hn : Netlist.ofCircuit c = .ok n)
    (hlt : n.numConstraints < p) (hinputs : c.inputs.length + 1 < UInt64.size) {x w : List (Fp p)}
    (hw : n.witness x = .ok w) {config : CeremonyConfig}
    (hpowers₁ : 2 * n.numConstraints - 1 ≤ config.powersG1)
    (hpowers₂ : n.numConstraints ≤ config.powersG2) (s : Phase1Secrets p)
    (further : List (Phase1Secrets p)) {t : Phase2Secrets p} (hgamma : t.gamma ≠ 0)
    (hdelta : t.delta ≠ 0) (r₁ r₂ : Fp p) :
    ∃ (q : Qap p) (first last : ReferenceString G₁ G₂) (pk : ProvingKey p G₁ G₂)
      (proof : Proof G₁ G₂),
      Qap.ofNetlist n = .ok q ∧
      ReferenceString.ofSecrets config s = .ok first ∧
      further.foldlM ReferenceString.contribute first = .ok last ∧
      ProvingKey.ofReferenceString last q t = .ok pk ∧
      Proof.ofWitness pk w r₁ r₂ = .ok proof ∧
      pk.vk.verify x proof = .ok true := by
  have hflat := Netlist.isFlattening_of_ofCircuit hn
  have hsolution := hflat.singleAssignment.isSolution_of_witness hw
  obtain ⟨m, hm, hsystem, hsat⟩ := hsolution.exists_system
  rw [← hflat.numInputs_eq] at hinputs
  obtain ⟨q, hq, hlifts⟩ := hflat.exists_lifts hlt hinputs hm hsystem
  have hpos := hflat.numConstraints_pos
  have hnum : q.numConstraints = n.numConstraints :=
    hlifts.numConstraints_eq.trans hsystem.numConstraints_eq
  -- the contributions leave the string of one combined secret
  set s' := further.foldl (fun s t ↦ t * s) s
  obtain ⟨proof, hproof, hverify⟩ : ∃ proof : Proof G₁ G₂,
      Proof.ofWitness (ProvingKey.ofExponents q s' t) w r₁ r₂ = .ok proof ∧
        (ProvingKey.ofExponents q s' t).vk.verify x proof = .ok true :=
    hlifts.exists_accepted (hsystem.numConstraints_eq ▸ hlt) hgamma hdelta
      (hsolution.length_eq.trans hsystem.numWires_eq.symm) hsolution.take_eq hsat r₁ r₂
  refine ⟨q, _, _, ProvingKey.ofExponents q s' t, proof, hq,
    ReferenceString.ofSecrets_eq_ok_iff.2 ⟨by omega, by omega, rfl⟩,
    ReferenceString.foldlM_contribute _ _ s further, ?_, hproof, hverify⟩
  exact (ProvingKey.ofReferenceString_eq_ok_iff hlifts.wellShaped hgamma hdelta).2
    ⟨by omega, by omega, rfl⟩

/-- A circuit that returns five more than the cube of its input. -/
def cubic : Circuit where
  inputs := ["x"]
  body := [.assign "y" (.pow (.var "x") 3), .ret (.binary .add (.var "y") (.lit 5))]

theorem cubic_proof_accepted : ∃ n, Netlist.ofCircuit cubic = .ok n ∧ n.numConstraints < 101 ∧
    cubic.inputs.length + 1 < UInt64.size ∧
    n.witness ([3] : List (Fp 101)) = .ok [1, 3, 27, 9, 32] ∧
    2 * n.numConstraints - 1 ≤ CeremonyConfig.default.powersG1 ∧
    n.numConstraints ≤ CeremonyConfig.default.powersG2 ∧ (9 : Fp 101) ≠ 0 ∧ (8 : Fp 101) ≠ 0 ∧
    ∃ (q : Qap 101) (first last : ReferenceString (Fp 101) (Fp 101))
      (pk : ProvingKey 101 (Fp 101) (Fp 101)) (proof : Proof (Fp 101) (Fp 101)),
      Qap.ofNetlist n = .ok q ∧
      ReferenceString.ofSecrets .default (⟨5, 6, 7⟩ : Phase1Secrets 101) = .ok first ∧
      [(⟨2, 3, 4⟩ : Phase1Secrets 101)].foldlM ReferenceString.contribute first = .ok last ∧
      ProvingKey.ofReferenceString last q ⟨8, 9⟩ = .ok pk ∧
      Proof.ofWitness pk [1, 3, 27, 9, 32] 10 0 = .ok proof ∧
      pk.vk.verify ([3] : List (Fp 101)) proof = .ok true :=
  ⟨_, rfl, by decide, by decide, by decide +kernel, by decide, by decide, by decide, by decide,
    Circuit.proof_accepted (c := cubic) rfl (by decide) (by decide) (by decide +kernel) (by decide)
      (by decide) ⟨5, 6, 7⟩ [⟨2, 3, 4⟩] (by decide) (by decide) 10 0⟩

end SuccinctProof
