import SuccinctProof.Proofs.Proof.Equation

/-!
# Linear provers

A linear prover fixes coefficients before it sees a key, and makes every element of its proof by
combining the published elements of the right group with them. The verifier's elements are
published too, and so is the generator, which is the first power of `tau`.

Under the key of known secrets such a proof has the scalars `LinearProver.scalars`. As functions of
the secrets they are sums of few terms, and the coefficients of the private wires and of the
quotient stand together in front of the inverse of `delta`.
-/

namespace SuccinctProof

variable {p : ℕ} [Modulus p]

/-- Coefficients for the published elements of the first group. -/
structure LinearG1 (p : ℕ) where
  /-- The coefficient of `alpha`. -/
  alpha : Fp p
  /-- The coefficient of `beta`. -/
  beta : Fp p
  /-- The coefficient of `delta`. -/
  delta : Fp p
  /-- The coefficients of the powers of `tau`. -/
  tau : List (Fp p)
  /-- The coefficients of the public wires. -/
  publicTerms : List (Fp p)
  /-- The coefficients of the private wires. -/
  privateTerms : List (Fp p)
  /-- The coefficients of the elements for the quotient. -/
  quotientTerms : List (Fp p)

/-- Coefficients for the published elements of the second group. -/
structure LinearG2 (p : ℕ) where
  /-- The coefficient of `beta`. -/
  beta : Fp p
  /-- The coefficient of `gamma`. -/
  gamma : Fp p
  /-- The coefficient of `delta`. -/
  delta : Fp p
  /-- The coefficients of the powers of `tau`. -/
  tau : List (Fp p)

/-- Coefficients for all elements of a proof. -/
structure LinearProver (p : ℕ) where
  /-- The coefficients of the left factor. -/
  a : LinearG1 p
  /-- The coefficients of the right factor. -/
  b : LinearG2 p
  /-- The coefficients of the product. -/
  c : LinearG1 p

section Groups

variable {G₁ G₂ : Type}

/-- The combination of the published elements of the first group. -/
def LinearG1.combine [Zero G₁] [Add G₁] [SMul (Fp p) G₁] (f : LinearG1 p)
    (pk : ProvingKey p G₁ G₂) : G₁ :=
  f.alpha • pk.vk.alphaG1 + f.beta • pk.betaG1 + f.delta • pk.deltaG1 +
    combineMultiples f.tau pk.tauG1 + combineMultiples f.publicTerms pk.vk.publicTerms +
    combineMultiples f.privateTerms pk.privateTerms +
    combineMultiples f.quotientTerms pk.quotientTerms

/-- The combination of the published elements of the second group. -/
def LinearG2.combine [Zero G₂] [Add G₂] [SMul (Fp p) G₂] (f : LinearG2 p)
    (pk : ProvingKey p G₁ G₂) : G₂ :=
  f.beta • pk.vk.betaG2 + f.gamma • pk.vk.gammaG2 + f.delta • pk.vk.deltaG2 +
    combineMultiples f.tau pk.tauG2

/-- The proof that a linear prover makes under a key. -/
def LinearProver.prove [Zero G₁] [Add G₁] [SMul (Fp p) G₁] [Zero G₂] [Add G₂] [SMul (Fp p) G₂]
    (f : LinearProver p) (pk : ProvingKey p G₁ G₂) : Proof G₁ G₂ where
  a := f.a.combine pk
  b := f.b.combine pk
  c := f.c.combine pk

end Groups

/-! ### Scalars -/

/-- The part of a combination in the first group that is not divided, and without `delta`. -/
def LinearG1.undivided (f : LinearG1 p) (q : Qap p) (s : Phase1Secrets p) : Fp p :=
  f.alpha * s.alpha + f.beta * s.beta + dot f.tau (powersFrom s.tau 1 q.numConstraints)

/-- The part of a combination in the first group that is divided by `gamma`. -/
def LinearG1.overGamma (f : LinearG1 p) (q : Qap p) (s : Phase1Secrets p) : Fp p :=
  dot f.publicTerms ((q.wireValues s).take q.numPublic)

/-- The part of a combination in the first group that is divided by `delta`. -/
def LinearG1.overDelta (f : LinearG1 p) (q : Qap p) (s : Phase1Secrets p) : Fp p :=
  dot f.privateTerms ((q.wireValues s).drop q.numPublic) +
    q.z.eval s.tau * dot f.quotientTerms (powersFrom s.tau 1 (q.numConstraints - 1))

/-- The scalar of a combination in the first group. -/
def LinearG1.scalar (f : LinearG1 p) (q : Qap p) (s : Phase1Secrets p) (t : Phase2Secrets p) :
    Fp p :=
  f.undivided q s + f.delta * t.delta + t.gamma⁻¹ * f.overGamma q s + t.delta⁻¹ * f.overDelta q s

/-- The part of a combination in the second group without `gamma` and `delta`. -/
def LinearG2.undivided (f : LinearG2 p) (q : Qap p) (s : Phase1Secrets p) : Fp p :=
  f.beta * s.beta + dot f.tau (powersFrom s.tau 1 q.numConstraints)

/-- The scalar of a combination in the second group. -/
def LinearG2.scalar (f : LinearG2 p) (q : Qap p) (s : Phase1Secrets p) (t : Phase2Secrets p) :
    Fp p :=
  f.undivided q s + f.gamma * t.gamma + f.delta * t.delta

/-- The scalars of the proof of a linear prover. -/
def LinearProver.scalars (f : LinearProver p) (q : Qap p) (s : Phase1Secrets p)
    (t : Phase2Secrets p) : Proof (Fp p) (Fp p) where
  a := f.a.scalar q s t
  b := f.b.scalar q s t
  c := f.c.scalar q s t

variable {G₁ G₂ : Type} [AddCommGroup G₁] [Module (Fp p) G₁] [AddCommGroup G₂] [Module (Fp p) G₂]
  [Generated G₁] [Generated G₂] {q : Qap p} {s : Phase1Secrets p} {t : Phase2Secrets p}

theorem LinearG1.combine_ofExponents (f : LinearG1 p) :
    f.combine (ProvingKey.ofExponents q s t : ProvingKey p G₁ G₂) =
      f.scalar q s t • Generated.generator := by
  have hquotient : dot f.quotientTerms
      (powersFrom s.tau (t.delta⁻¹ * q.z.eval s.tau) (q.numConstraints - 1)) =
        t.delta⁻¹ * q.z.eval s.tau *
          dot f.quotientTerms (powersFrom s.tau 1 (q.numConstraints - 1)) := by
    rw [← dot_map_mul, map_mul_powersFrom, mul_one]
  rw [combine, ProvingKey.ofExponents]
  simp only [combineMultiples_map, dot_map_mul, hquotient, smul_smul, ← add_smul]
  rw [scalar, undivided, overGamma, overDelta]
  congr 1
  ring

theorem LinearG2.combine_ofExponents (f : LinearG2 p) :
    f.combine (ProvingKey.ofExponents q s t : ProvingKey p G₁ G₂) =
      f.scalar q s t • Generated.generator := by
  rw [combine, ProvingKey.ofExponents]
  simp only [combineMultiples_map, smul_smul, ← add_smul]
  rw [scalar, undivided]
  congr 1
  ring

/-- **The proof of a linear prover has the scalars of its combinations.** -/
theorem LinearProver.prove_ofExponents (f : LinearProver p) :
    f.prove (ProvingKey.ofExponents q s t : ProvingKey p G₁ G₂) = (f.scalars q s t).ofScalars := by
  rw [prove, LinearG1.combine_ofExponents, LinearG2.combine_ofExponents,
    LinearG1.combine_ofExponents]
  rfl

/-! ### The honest prover -/

/-- The linear prover for a vector `w` with quotient `h`, without blinding. -/
def LinearProver.honest (q : Qap p) (w : List (Fp p)) (h : Poly p) : LinearProver p where
  a := ⟨1, 0, 0, (q.left w).coeffs, [], [], []⟩
  b := ⟨1, 0, 0, (q.right w).coeffs⟩
  c := ⟨0, 0, 0, [], [], w.drop q.numPublic, h.coeffs⟩

/-- **The proof of the honest prover is the one that is made without blinding.** -/
theorem LinearProver.scalars_honest (hq : q.WellShaped) {w : List (Fp p)} {h : Poly p}
    (hlen : h.length ≤ q.numConstraints - 1) :
    (honest q w h).scalars q s t = Proof.scalars q s t w h 0 0 := by
  have hleft := dot_powersFrom (Proof.length_left_le hq w) s.tau 1
  have hright := dot_powersFrom (Proof.length_right_le hq w) s.tau 1
  have hquotient := dot_powersFrom hlen s.tau 1
  rw [scalars, Proof.scalars, honest]
  simp only [LinearG1.scalar, LinearG1.undivided, LinearG1.overGamma, LinearG1.overDelta,
    LinearG2.scalar, LinearG2.undivided, dot_nil_left, hleft, hright, hquotient, Proof.mk.injEq]
  refine ⟨?_, ?_, ?_⟩ <;> ring

end SuccinctProof
