import SuccinctProof.Ceremony.Keys

/-!
# Proofs

A proof is three group elements. `Proof.ofWitness` computes one from a proving key, a vector of wire
values, and two blinding factors `r` and `s`. With `A`, `B` the combinations of the left and right
columns at `tau`, it is

* `a = alpha + A + r * delta`,
* `b = beta + B + s * delta`,
* `c = (private part + h * z) / delta + s * a + r * b - r * s * delta`,

each in its group. The part `r * b` needs `b` in the first group, which is not computed when `r` is
zero. In `s * a` and `r * b` a sum is multiplied, and that is done by `SplitMul.splitMul`; all other
multiples are of elements of the key.

`Proof.rerandomize` turns a proof into another one for the same statement, valid exactly when the
given one is.
-/

namespace SuccinctProof

/-- A proof that some assignment satisfies a circuit. -/
structure Proof (G₁ G₂ : Type) where
  /-- The left factor. -/
  a : G₁
  /-- The right factor. -/
  b : G₂
  /-- The product, without its public part. -/
  c : G₁
deriving DecidableEq

namespace Proof

variable {p : Nat} [Modulus p] {G₁ G₂ : Type}

/-- The proof of nothing: every element is the neutral one. -/
def zero [Zero G₁] [Zero G₂] : Proof G₁ G₂ := ⟨0, 0, 0⟩

section Operations

variable [Zero G₁] [Add G₁] [Sub G₁] [SMul (Fp p) G₁] [SplitMul (Fp p) G₁]
  [Zero G₂] [Add G₂] [SMul (Fp p) G₂]

/-- The right factor in the first group, as far as its multiple by `r` counts: for `r = 0` it is not
computed, and cannot be refused. -/
def rightFactorG1 (pk : ProvingKey p G₁ G₂) (right : Poly p) (r s : Fp p) : Except Error G₁ := do
  if r = 0 then return 0
  return (← right.evalInGroup pk.tauG1) + pk.betaG1 + s • pk.deltaG1

/-- The proof for a vector of wire values, with blinding factors `r` and `s`. Refused when the
vector has no quotient, and when a part of the key is too short for it. -/
def ofWitness (pk : ProvingKey p G₁ G₂) (w : List (Fp p)) (r s : Fp p) :
    Except Error (Proof G₁ G₂) := do
  let q := pk.qap
  let h ← q.quotient w
  let quotientPart ← h.evalInGroup pk.quotientTerms
  if w.length < q.numPublic then throw .missingEntry
  let privateValues := w.drop q.numPublic
  if privateValues.length ≠ pk.privateTerms.length then
    throw (.witnessLength (q.numPublic + pk.privateTerms.length) w.length)
  let privatePart := combineMultiples privateValues pk.privateTerms
  let a := (← (q.left w).evalInGroup pk.tauG1) + pk.vk.alphaG1 + r • pk.deltaG1
  let right := q.right w
  let rightG1 ← rightFactorG1 pk right r s
  let b := (← right.evalInGroup pk.tauG2) + pk.vk.betaG2 + s • pk.vk.deltaG2
  let c := SplitMul.splitMul s a + SplitMul.splitMul r rightG1 - (r * s) • pk.deltaG1 +
    privatePart + quotientPart
  return ⟨a, b, c⟩

/-- The proof with blinding factors from the whole field, zero included. -/
def sample (pk : ProvingKey p G₁ G₂) (w : List (Fp p)) (attempts : Nat) :
    Sampler (Except Error (Proof G₁ G₂)) := do
  let r ← Sampler.uniform attempts
  let s ← Sampler.uniform attempts
  return ofWitness pk w r s

end Operations

/-! ### Rerandomisation -/

/-- Two residues, neither of them zero. Both are drawn again when one is. -/
def rerandomizers (attempts : Nat) : Sampler (Fp p × Fp p) :=
  Sampler.retry attempts do
    let r₁ ← Sampler.uniform attempts
    let r₂ ← Sampler.uniform attempts
    return if r₁ = 0 ∨ r₂ = 0 then none else some (r₁, r₂)

variable [Add G₁] [SMul (Fp p) G₁] [Add G₂] [SMul (Fp p) G₂]

/-- The proof of the same statement with other randomness: the factors `a` and `b` are scaled
inversely to each other, and `b` is shifted by a multiple of `delta` that `c` makes up for. Refused
when the scale has no inverse. -/
def rerandomizeWith (vk : VerifyingKey G₁ G₂) (proof : Proof G₁ G₂) (r₁ r₂ : Fp p) :
    Except Error (Proof G₁ G₂) := do
  let inverse ← r₁.inverse
  return {
    a := inverse • proof.a
    b := r₁ • proof.b + (r₁ * r₂) • vk.deltaG2
    c := proof.c + r₂ • proof.a }

/-- The proof of the same statement with freshly drawn randomness. -/
def rerandomize (p : Nat) [Modulus p] [SMul (Fp p) G₁] [SMul (Fp p) G₂] (vk : VerifyingKey G₁ G₂)
    (proof : Proof G₁ G₂) (attempts : Nat) : Sampler (Except Error (Proof G₁ G₂)) := do
  let (r₁, r₂) : Fp p × Fp p ← rerandomizers attempts
  return proof.rerandomizeWith vk r₁ r₂

end Proof

end SuccinctProof
