import SuccinctProof.Proof.Basic

/-!
# Verification

A proof is valid for public inputs when the pairing of `a` and `b` is the product of three pairings:
`alpha` with `beta`, the committed inputs with `gamma`, and `c` with `delta`. The constant-one wire
is not among the inputs; its term is always added.

There are two computations of this. `VerifyingKey.verify` takes the four pairings one by one.
`PreparedKey.verify` pairs `alpha` with `beta` beforehand and takes the other three in one product,
against the negatives of `gamma` and `delta`. Both refuse inputs whose number does not fit the key,
and answer with a Boolean otherwise.
-/

namespace SuccinctProof

variable {p : Nat} [Modulus p] {G₁ G₂ Gₜ : Type}

/-- The commitment to public inputs: the term of the constant-one wire, and the term of each input
times its value. Refused unless there is one input less than there are terms. -/
def VerifyingKey.commitInputs [Zero G₁] [Add G₁] [SMul (Fp p) G₁] (vk : VerifyingKey G₁ G₂)
    (inputs : List (Fp p)) : Except Error G₁ :=
  match vk.publicTerms with
  | one :: terms =>
    if inputs.length = terms.length then .ok (one + combineMultiples inputs terms)
    else .error .malformedKey
  | [] => .error .malformedKey

/-- Whether a proof is valid for public inputs, with four pairings. -/
def VerifyingKey.verify [Zero G₁] [Add G₁] [SMul (Fp p) G₁] [Mul Gₜ] [DecidableEq Gₜ]
    [Pairing G₁ G₂ Gₜ] (vk : VerifyingKey G₁ G₂) (inputs : List (Fp p)) (proof : Proof G₁ G₂) :
    Except Error Bool := do
  let inputTerm ← vk.commitInputs inputs
  return Pairing.pair proof.a proof.b =
    Pairing.pair vk.alphaG1 vk.betaG2 * Pairing.pair inputTerm vk.gammaG2 *
      Pairing.pair proof.c vk.deltaG2

/-- A verifying key with the parts of the check that do not depend on a proof. -/
structure PreparedKey (G₁ G₂ Gₜ : Type) where
  /-- The key. -/
  vk : VerifyingKey G₁ G₂
  /-- The pairing of `alpha` and `beta`. -/
  alphaBeta : Gₜ
  /-- The negative of `gamma`. -/
  negGammaG2 : G₂
  /-- The negative of `delta`. -/
  negDeltaG2 : G₂

namespace PreparedKey

/-- Prepares a key. -/
def ofKey [Neg G₂] [Pairing G₁ G₂ Gₜ] (vk : VerifyingKey G₁ G₂) : PreparedKey G₁ G₂ Gₜ where
  vk := vk
  alphaBeta := Pairing.pair vk.alphaG1 vk.betaG2
  negGammaG2 := -vk.gammaG2
  negDeltaG2 := -vk.deltaG2

/-- Whether a proof is valid for the inputs behind a commitment, with one product of pairings. -/
def verifyCommitted [DecidableEq Gₜ] [Pairing G₁ G₂ Gₜ] (key : PreparedKey G₁ G₂ Gₜ)
    (proof : Proof G₁ G₂) (inputTerm : G₁) : Bool :=
  Pairing.pairProduct
    [(proof.a, proof.b), (inputTerm, key.negGammaG2), (proof.c, key.negDeltaG2)] = key.alphaBeta

variable [Zero G₁] [Add G₁] [SMul (Fp p) G₁]

/-- The commitment to public inputs. -/
def commitInputs (key : PreparedKey G₁ G₂ Gₜ) (inputs : List (Fp p)) : Except Error G₁ :=
  key.vk.commitInputs inputs

/-- Whether a proof is valid for public inputs. -/
def verify [DecidableEq Gₜ] [Pairing G₁ G₂ Gₜ] (key : PreparedKey G₁ G₂ Gₜ)
    (inputs : List (Fp p)) (proof : Proof G₁ G₂) : Except Error Bool := do
  return key.verifyCommitted proof (← key.commitInputs inputs)

end PreparedKey

end SuccinctProof
