import SuccinctProof.Random.Sampler

/-!
# Sizes and secrets of a ceremony

A ceremony is run with a number of powers for each source group, and draws its secrets either from
a range of integers or from the whole field. Secrets are never zero: a range is cut off below one,
and an empty range is taken to be its lower end alone.

A circuit with `n` constraints needs `2 * n - 1` powers in the first group and `n` in the second,
which is what `CeremonyConfig.forConstraints` provides. A number of powers is held in 64 binary
digits, so for `n` above `2 ^ 63` it is the remainder of `2 * n - 1` by `2 ^ 64`.
-/

namespace SuccinctProof

/-- The sizes of the reference string, and where secrets are drawn from. -/
structure CeremonyConfig where
  /-- The number of powers in the first group. -/
  powersG1 : Nat
  /-- The number of powers in the second group. -/
  powersG2 : Nat
  /-- The range of the secrets, both ends included, or nothing for the whole field. -/
  secretRange : Option (UInt64 × UInt64)
deriving DecidableEq

namespace CeremonyConfig

/-- Small sizes and small, guessable secrets. -/
def default : CeremonyConfig := ⟨128, 16, some (200, 500)⟩

/-- The default sizes, with secrets from the whole field. -/
def fullField : CeremonyConfig := { default with secretRange := none }

/-- The smallest sizes that suffice for a number of constraints, as far as 64 binary digits can hold
them. -/
def forConstraints (n : Nat) : CeremonyConfig :=
  { default with powersG1 := (2 * max n 1 - 1) % UInt64.size, powersG2 := max n 1 }

variable {p : Nat} [Modulus p]

/-- Draws a secret. -/
def secret (config : CeremonyConfig) (attempts : Nat) : Sampler (Fp p) :=
  match config.secretRange with
  | some (low, high) => do
    let low := max low 1
    return Fp.ofNat (← Sampler.between attempts low (max high low))
  | none => Sampler.uniformNonzero attempts

end CeremonyConfig

/-- The secrets of the first phase. -/
structure Phase1Secrets (p : Nat) where
  /-- The point at which polynomials are evaluated. -/
  tau : Fp p
  /-- The shift of the left factor. -/
  alpha : Fp p
  /-- The shift of the right factor. -/
  beta : Fp p
deriving DecidableEq

/-- The secrets of the second phase. -/
structure Phase2Secrets (p : Nat) where
  /-- The divisor of the private part. -/
  delta : Fp p
  /-- The divisor of the public part. -/
  gamma : Fp p
deriving DecidableEq

variable {p : Nat} [Modulus p]

/-- Draws the secrets of the first phase, in the order of their names in the structure. -/
def Phase1Secrets.sample (config : CeremonyConfig) (attempts : Nat) :
    Sampler (Phase1Secrets p) := do
  let tau ← config.secret attempts
  let alpha ← config.secret attempts
  let beta ← config.secret attempts
  return ⟨tau, alpha, beta⟩

/-- Draws the secrets of the second phase, in the order of their names in the structure. -/
def Phase2Secrets.sample (config : CeremonyConfig) (attempts : Nat) :
    Sampler (Phase2Secrets p) := do
  let delta ← config.secret attempts
  let gamma ← config.secret attempts
  return ⟨delta, gamma⟩

/-- What is left of the secrets once they are wiped. -/
def Phase1Secrets.wiped : Phase1Secrets p := ⟨0, 0, 0⟩

/-- What is left of the secrets once they are wiped. -/
def Phase2Secrets.wiped : Phase2Secrets p := ⟨0, 0⟩

end SuccinctProof
