import SuccinctProof.Ceremony.ReferenceString
import SuccinctProof.Qap

/-!
# Keys

The second phase of a ceremony specialises a reference string to a quadratic program. For each wire
`i` it computes, in the first group, the value at `tau` of `beta * a i + alpha * b i + c i`, from
the published powers alone; a public wire's value is divided by `gamma`, and a private wire's by
`delta`. The same is done for the vanishing polynomial times each power of `tau` that a quotient can
have, divided by `delta`.

`ProvingKey.ofReferenceString` holds the order of its checks: the shape of the program, the number
of powers, the two divisors, and last the length of each polynomial.
-/

namespace SuccinctProof

/-- What a verifier needs. -/
structure VerifyingKey (G₁ G₂ : Type) where
  /-- The secret `alpha`, in the first group. -/
  alphaG1 : G₁
  /-- The secret `beta`, in the second group. -/
  betaG2 : G₂
  /-- The secret `gamma`, in the second group. -/
  gammaG2 : G₂
  /-- The secret `delta`, in the second group. -/
  deltaG2 : G₂
  /-- One element for each public wire, divided by `gamma`. -/
  publicTerms : List G₁
deriving DecidableEq

/-- What a prover needs. -/
structure ProvingKey (p : Nat) (G₁ G₂ : Type) where
  /-- The verifying key. -/
  vk : VerifyingKey G₁ G₂
  /-- The secret `beta`, in the first group. -/
  betaG1 : G₁
  /-- The secret `delta`, in the first group. -/
  deltaG1 : G₁
  /-- The powers of `tau` in the first group, one for each constraint. -/
  tauG1 : List G₁
  /-- The powers of `tau` in the second group, one for each constraint. -/
  tauG2 : List G₂
  /-- One element for each private wire, divided by `delta`. -/
  privateTerms : List G₁
  /-- The vanishing polynomial at `tau` times the powers of `tau`, divided by `delta`, one for each
  coefficient of a quotient. -/
  quotientTerms : List G₁
  /-- The program the key is for. -/
  qap : Qap p
deriving DecidableEq

variable {p : Nat} [Modulus p] {G₁ G₂ : Type}

/-- The key of nothing: every element is the neutral one. -/
def VerifyingKey.zero [Zero G₁] [Zero G₂] : VerifyingKey G₁ G₂ := ⟨0, 0, 0, 0, []⟩

variable [Zero G₁] [Add G₁] [SMul (Fp p) G₁] [SMul (Fp p) G₂]

/-- The element of a wire before division: its three polynomials at `tau`, the left one times `beta`
and the right one times `alpha`. -/
def ReferenceString.wireTerm (srs : ReferenceString G₁ G₂) (a b c : Poly p) :
    Except Error G₁ := do
  return (← a.evalInGroup srs.betaTauG1) + (← b.evalInGroup srs.alphaTauG1) +
    (← c.evalInGroup srs.tauG1)

namespace ProvingKey

variable [Generated G₁] [Generated G₂]

/-- The keys for a program, from a reference string and the secrets of the second phase. -/
def ofReferenceString (srs : ReferenceString G₁ G₂) (q : Qap p) (secrets : Phase2Secrets p) :
    Except Error (ProvingKey p G₁ G₂) := do
  let n := q.numConstraints
  if q.b.length ≠ q.numWires ∨ q.c.length ≠ q.numWires ∨ q.numPublic = 0 ∨
      q.numWires < q.numPublic then
    throw (.invalidCircuit .malformedProgram)
  if srs.tauG1.length < n + (n - 1) ∨ srs.tauG2.length < n then
    throw .degreeTooLarge
  let gammaInverse ← secrets.gamma.inverse
  let deltaInverse ← secrets.delta.inverse
  let terms ← (q.a.zip (q.b.zip q.c)).mapM fun (a, b, c) ↦ srs.wireTerm a b c
  let quotientTerms ← (List.range (n - 1)).mapM fun j ↦ do
    return deltaInverse • (← q.z.evalInGroup (srs.tauG1.drop j))
  let g : G₁ := Generated.generator
  let h : G₂ := Generated.generator
  return {
    vk := {
      alphaG1 := srs.alphaG1
      betaG2 := srs.betaG2
      gammaG2 := secrets.gamma • h
      deltaG2 := secrets.delta • h
      publicTerms := (terms.take q.numPublic).map (gammaInverse • ·) }
    betaG1 := srs.betaG1
    deltaG1 := secrets.delta • g
    tauG1 := srs.tauG1.take n
    tauG2 := srs.tauG2.take n
    privateTerms := (terms.drop q.numPublic).map (deltaInverse • ·)
    quotientTerms
    qap := q }

/-- Both phases with freshly drawn secrets. The secrets of the second phase are only drawn once the
first phase has succeeded. -/
def setup (config : CeremonyConfig) (q : Qap p) (attempts : Nat) :
    Sampler (Except Error (ProvingKey p G₁ G₂)) := do
  match ReferenceString.ofSecrets config (← Phase1Secrets.sample (p := p) config attempts) with
  | .error e => return .error e
  | .ok srs => return ofReferenceString srs q (← Phase2Secrets.sample config attempts)

end ProvingKey

end SuccinctProof
