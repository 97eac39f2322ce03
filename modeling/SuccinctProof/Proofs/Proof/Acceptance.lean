import SuccinctProof.Netlist.OfCircuit
import SuccinctProof.Proofs.Proof.Equation

/-!
# Exact acceptance

Both sides of a verifier's check contain the same private part, so what is left of it for a computed
proof is a comparison of the public values of the vector with the inputs, each weighted by the value
of its wire (`VerifyingKey.verify_ofWitness`). No condition is put on the vector: its first value is
the constant one for the verifier, and whatever it is for the prover.

* `ProvingKey.verify_eq_decide_and_existsUnique` says for which inputs the proof is accepted, and
  that for any two factors one product is accepted and no other.
* `ProvingKey.verify_own_inputs_eq_decide` says when a proof is accepted for the inputs that are in
  its vector: when the vector starts with one, or the value of the first wire is zero.
  `ProvingKey.doubling_rejects_own_inputs` is a vector that has a proof and does not start with one.

Everything is stated for the keys that both phases make (`ProvingKey.eq_ofExponents`), and for
programs of any shape.
-/

namespace SuccinctProof

variable {p : ℕ} [Fact p.Prime] {G₁ G₂ Gₜ : Type} [AddCommGroup G₁] [Module (Fp p) G₁]
  [AddCommGroup G₂] [Module (Fp p) G₂] [CommGroup Gₜ] [DecidableEq Gₜ] [Generated G₁]
  [Generated G₂] [Pairing G₁ G₂ Gₜ] [BilinearPairing G₁ G₂ Gₜ]

variable {q : Qap p} {s : Phase1Secrets p} {t : Phase2Secrets p} {w x : List (Fp p)}

/-! ### The answer of a verifier -/

namespace VerifyingKey

/-- The equation can be solved for the scalar of the product. -/
theorem eq_target_iff (hdelta : t.delta ≠ 0) {k c : Fp p} :
    k = target q s t x c ↔
      c = t.delta⁻¹ *
        (k - s.alpha * s.beta - dot (1 :: x) ((q.wireValues s).take q.numPublic)) := by
  rw [target, Fp.eq_add_mul_iff hdelta, sub_sub]

section Key

variable (hne : (Pairing.pair (Generated.generator : G₁) (Generated.generator : G₂) : Gₜ) ≠ 1)
  (hq : q.Aligned) (hgamma : t.gamma ≠ 0) (hdelta : t.delta ≠ 0)
include hne hq hgamma hdelta

/-- **The verifier compares the public values of the vector with the inputs.** -/
theorem verify_ofWitness [SplitMul (Fp p) G₁] [LawfulSplitMul (Fp p) G₁] {r₁ r₂ : Fp p}
    {proof : Proof G₁ G₂}
    (hproof : Proof.ofWitness (ProvingKey.ofExponents q s t : ProvingKey p G₁ G₂) w r₁ r₂ =
      .ok proof) (hx : x.length + 1 = q.numPublic) :
    (ProvingKey.ofExponents q s t : ProvingKey p G₁ G₂).vk.verify x proof =
      .ok (decide (dot (w.take q.numPublic) (q.wireValues s) = dot (1 :: x) (q.wireValues s))) := by
  obtain ⟨h, hquotient, -, -, -, rfl⟩ := (Proof.ofWitness_ofExponents_eq_ok_iff hq).1 hproof
  have hw : (w.take q.numPublic).length ≤ q.numPublic := by
    rw [List.length_take]
    exact Nat.min_le_left _ _
  rw [verify_ofScalars hq hgamma, if_pos hx]
  refine congrArg Except.ok (decide_eq_decide.2 ?_)
  rw [Pairing.power_inj hne, target, Proof.scalars_mul hq hdelta hquotient, add_left_inj,
    add_right_inj, dot_take_right _ hw, dot_take_right _ hx.le]

/-- **Two factors have one product that is accepted.** -/
theorem existsUnique_verify [LawfulGenerated (Fp p) G₁] [LawfulGenerated (Fp p) G₂]
    (a : G₁) (b : G₂) (hx : x.length + 1 = q.numPublic) :
    ∃! c : G₁, (ProvingKey.ofExponents q s t : ProvingKey p G₁ G₂).vk.verify x ⟨a, b, c⟩ =
      .ok true := by
  obtain ⟨a, rfl⟩ := LawfulGenerated.exists_smul_eq (S := Fp p) a
  obtain ⟨b, rfl⟩ := LawfulGenerated.exists_smul_eq (S := Fp p) b
  have hverify : ∀ c : Fp p, (ProvingKey.ofExponents q s t : ProvingKey p G₁ G₂).vk.verify x
      ⟨a • Generated.generator, b • Generated.generator, c • Generated.generator⟩ = .ok true ↔
        c = t.delta⁻¹ *
          (a * b - s.alpha * s.beta - dot (1 :: x) ((q.wireValues s).take q.numPublic)) := by
    intro c
    show (ProvingKey.ofExponents q s t : ProvingKey p G₁ G₂).vk.verify x
      (Proof.ofScalars ⟨a, b, c⟩) = _ ↔ _
    rw [verify_ofScalars_iff hne hq hgamma, and_iff_right hx, eq_target_iff hdelta]
  refine ⟨_, (hverify _).2 rfl, fun c hc ↦ ?_⟩
  obtain ⟨c, rfl⟩ := LawfulGenerated.exists_smul_eq (S := Fp p) c
  rw [(hverify c).1 hc]

end Key

end VerifyingKey

/-! ### A circuit with a constant -/

/-- A circuit that returns twice its input. Its only gate adds, so the constant-one wire is its
right factor. -/
def doubling : Circuit where
  inputs := ["x"]
  body := [.ret (.binary .add (.var "x") (.var "x"))]

/-- The program of the circuit. -/
def doublingProgram (p : ℕ) [Modulus p] : Qap p where
  a := [⟨[0]⟩, ⟨[2]⟩, ⟨[0]⟩]
  b := [⟨[1]⟩, ⟨[0]⟩, ⟨[0]⟩]
  c := [⟨[0]⟩, ⟨[0]⟩, ⟨[1]⟩]
  z := ⟨[-1, 1]⟩
  numPublic := 2

/-! ### Keys of a ceremony -/

namespace ProvingKey

variable [SplitMul (Fp p) G₁] [LawfulSplitMul (Fp p) G₁] {config : CeremonyConfig}
  {srs : ReferenceString G₁ G₂} {pk : ProvingKey p G₁ G₂}

/-- **Exact acceptance.** Take the keys that both phases make for a program. The proof for a vector,
whatever its first value is, is accepted for inputs exactly when the public values of the vector and
the inputs, with the constant one before them, differ by nothing once each difference is weighted
with the value of its wire; otherwise the answer is that it is not valid. And for any two factors
there is exactly one product with which they are accepted. -/
theorem verify_eq_decide_and_existsUnique [LawfulGenerated (Fp p) G₁] [LawfulGenerated (Fp p) G₂]
    (hne : (Pairing.pair (Generated.generator : G₁) (Generated.generator : G₂) : Gₜ) ≠ 1)
    (hsrs : ReferenceString.ofSecrets config s = .ok srs)
    (hpk : ofReferenceString srs q t = .ok pk) :
    (∀ (w x : List (Fp p)) (r₁ r₂ : Fp p) (proof : Proof G₁ G₂),
      Proof.ofWitness pk w r₁ r₂ = .ok proof → x.length + 1 = q.numPublic →
        pk.vk.verify x proof =
          .ok (decide (dot (w.zipWith (· - ·) (1 :: x)) (q.wireValues s) = 0))) ∧
    ∀ (a : G₁) (b : G₂) (x : List (Fp p)), x.length + 1 = q.numPublic →
      ∃! c : G₁, pk.vk.verify x ⟨a, b, c⟩ = .ok true := by
  obtain ⟨hq, hgamma, hdelta, rfl⟩ := eq_ofExponents hsrs hpk
  refine ⟨fun w x r₁ r₂ proof hproof hx ↦ ?_, fun a b x hx ↦
    VerifyingKey.existsUnique_verify hne hq hgamma hdelta a b hx⟩
  obtain ⟨h, hquotient, -⟩ := (Proof.ofWitness_ofExponents_eq_ok_iff hq).1 hproof
  have hlen : (1 :: x).length ≤ w.length := by
    rw [Qap.length_of_quotient hquotient, List.length_cons, hx]
    exact hq.numPublic_le
  rw [VerifyingKey.verify_ofWitness hne hq hgamma hdelta hproof hx, dot_zipWith_sub _ hlen,
    List.length_cons, hx]
  exact congrArg Except.ok (decide_eq_decide.2 sub_eq_zero.symm)

theorem doubling_exact_acceptance : ∃ (srs : ReferenceString (Fp 101) (Fp 101))
    (pk : ProvingKey 101 (Fp 101) (Fp 101)) (proof : Proof (Fp 101) (Fp 101)),
    (Pairing.pair (Generated.generator : Fp 101) (Generated.generator : Fp 101) :
      Multiplicative (Fp 101)) ≠ 1 ∧
    ReferenceString.ofSecrets .default (⟨5, 6, 3⟩ : Phase1Secrets 101) = .ok srs ∧
    ofReferenceString srs (doublingProgram 101) ⟨8, 9⟩ = .ok pk ∧
    Proof.ofWitness pk [2, 3, 12] 10 11 = .ok proof ∧
    pk.vk.verify ([3] : List (Fp 101)) proof = .ok false ∧
    pk.vk.verify ([4] : List (Fp 101)) proof = .ok true ∧
    ∃! c, pk.vk.verify ([3] : List (Fp 101)) ⟨proof.a, proof.b, c⟩ = .ok true := by
  obtain ⟨srs, pk, proof, hsrs, hpk, hproof⟩ : ∃ (srs : ReferenceString (Fp 101) (Fp 101))
      (pk : ProvingKey 101 (Fp 101) (Fp 101)) (proof : Proof (Fp 101) (Fp 101)),
      ReferenceString.ofSecrets .default (⟨5, 6, 3⟩ : Phase1Secrets 101) = .ok srs ∧
      ofReferenceString srs (doublingProgram 101) ⟨8, 9⟩ = .ok pk ∧
      Proof.ofWitness pk [2, 3, 12] 10 11 = .ok proof :=
    ⟨_, ofExponents (doublingProgram 101) ⟨5, 6, 3⟩ ⟨8, 9⟩, _, rfl, by decide +kernel, rfl⟩
  have hne : (Pairing.pair (Generated.generator : Fp 101) (Generated.generator : Fp 101) :
      Multiplicative (Fp 101)) ≠ 1 := by decide
  obtain ⟨hverify, hunique⟩ := verify_eq_decide_and_existsUnique hne hsrs hpk
  refine ⟨srs, pk, proof, hne, hsrs, hpk, hproof, ?_, ?_, hunique _ _ [3] rfl⟩
  · rw [hverify _ [3] _ _ _ hproof rfl]
    decide +kernel
  · rw [hverify _ [4] _ _ _ hproof rfl]
    decide +kernel

/-- **A proof and the inputs of its own vector.** Take the keys that both phases make for a program.
The proof for a vector is accepted for the public values after the first one exactly when the vector
starts with one or the value of the first wire is zero. -/
theorem verify_own_inputs_eq_decide
    (hne : (Pairing.pair (Generated.generator : G₁) (Generated.generator : G₂) : Gₜ) ≠ 1)
    (hsrs : ReferenceString.ofSecrets config s = .ok srs)
    (hpk : ofReferenceString srs q t = .ok pk) {w : List (Fp p)} {r₁ r₂ : Fp p}
    {proof : Proof G₁ G₂} (hproof : Proof.ofWitness pk w r₁ r₂ = .ok proof) :
    pk.vk.verify (w.take q.numPublic).tail proof =
      .ok (decide (w.head? = some 1 ∨ (q.wireValues s).head? = some 0)) := by
  obtain ⟨hq, hgamma, hdelta, rfl⟩ := eq_ofExponents hsrs hpk
  obtain ⟨h, hquotient, -⟩ := (Proof.ofWitness_ofExponents_eq_ok_iff hq).1 hproof
  have hw := Qap.length_of_quotient hquotient
  have hvalues := Qap.length_wireValues hq s
  have hpos := hq.numPublic_pos
  have hle := hq.numPublic_le
  have hx : (w.take q.numPublic).tail.length + 1 = q.numPublic := by
    rw [List.length_tail, List.length_take]
    omega
  rw [VerifyingKey.verify_ofWitness hne hq hgamma hdelta hproof hx]
  -- vector and inputs differ in the first entry at most, which is weighted with the first wire
  obtain ⟨k, hk⟩ := Nat.exists_eq_add_of_lt hpos
  obtain ⟨w₀, w, rfl⟩ := List.exists_cons_of_length_pos (l := w) (by omega)
  obtain ⟨v₀, vs, hvs⟩ := List.exists_cons_of_length_pos (l := q.wireValues s) (by omega)
  refine congrArg Except.ok (decide_eq_decide.2 ?_)
  rw [hvs, hk, zero_add, List.take_succ_cons, List.tail_cons, dot_cons, dot_cons, add_left_inj,
    mul_eq_mul_right_iff, List.head?_cons, List.head?_cons, Option.some_inj, Option.some_inj]

theorem doubling_accepts_own_inputs : ∃ (srs : ReferenceString (Fp 101) (Fp 101))
    (pk : ProvingKey 101 (Fp 101) (Fp 101)) (proof : Proof (Fp 101) (Fp 101)),
    (Pairing.pair (Generated.generator : Fp 101) (Generated.generator : Fp 101) :
      Multiplicative (Fp 101)) ≠ 1 ∧
    ReferenceString.ofSecrets .default (⟨5, 6, 3⟩ : Phase1Secrets 101) = .ok srs ∧
    ofReferenceString srs (doublingProgram 101) ⟨8, 9⟩ = .ok pk ∧
    Proof.ofWitness pk [1, 3, 6] 10 11 = .ok proof ∧
    pk.vk.verify ([3] : List (Fp 101)) proof = .ok true := by
  obtain ⟨srs, pk, proof, hsrs, hpk, hproof⟩ : ∃ (srs : ReferenceString (Fp 101) (Fp 101))
      (pk : ProvingKey 101 (Fp 101) (Fp 101)) (proof : Proof (Fp 101) (Fp 101)),
      ReferenceString.ofSecrets .default (⟨5, 6, 3⟩ : Phase1Secrets 101) = .ok srs ∧
      ofReferenceString srs (doublingProgram 101) ⟨8, 9⟩ = .ok pk ∧
      Proof.ofWitness pk [1, 3, 6] 10 11 = .ok proof :=
    ⟨_, ofExponents (doublingProgram 101) ⟨5, 6, 3⟩ ⟨8, 9⟩, _, rfl, by decide +kernel, rfl⟩
  have hne : (Pairing.pair (Generated.generator : Fp 101) (Generated.generator : Fp 101) :
      Multiplicative (Fp 101)) ≠ 1 := by decide
  exact ⟨srs, pk, proof, hne, hsrs, hpk, hproof, verify_own_inputs_eq_decide hne hsrs hpk hproof⟩

/-- **A vector need not start with one to have a proof.** The only constraint of the circuit holds
for the vector, with two in place of the constant one, and so there is a proof; but it is not valid
for the input that is in the vector. -/
theorem doubling_rejects_own_inputs : ∃ (n : Netlist) (q : Qap 101)
    (srs : ReferenceString (Fp 101) (Fp 101)) (pk : ProvingKey 101 (Fp 101) (Fp 101))
    (proof : Proof (Fp 101) (Fp 101)),
    Netlist.ofCircuit doubling = .ok n ∧ Qap.ofNetlist n = .ok q ∧
    (Pairing.pair (Generated.generator : Fp 101) (Generated.generator : Fp 101) :
      Multiplicative (Fp 101)) ≠ 1 ∧
    ReferenceString.ofSecrets .default (⟨5, 6, 3⟩ : Phase1Secrets 101) = .ok srs ∧
    ofReferenceString srs q ⟨8, 9⟩ = .ok pk ∧
    Proof.ofWitness pk [2, 3, 12] 10 11 = .ok proof ∧
    pk.vk.verify (([2, 3, 12] : List (Fp 101)).take q.numPublic).tail proof = .ok false :=
  ⟨_, doublingProgram 101, _, ofExponents (doublingProgram 101) ⟨5, 6, 3⟩ ⟨8, 9⟩, _, rfl,
    by decide +kernel, by decide, rfl, by decide +kernel, rfl, by decide +kernel⟩

end ProvingKey

end SuccinctProof
