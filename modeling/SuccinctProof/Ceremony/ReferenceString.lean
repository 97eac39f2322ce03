import SuccinctProof.Ceremony.Config
import SuccinctProof.PairingGroup

/-!
# The reference string

The first phase of a ceremony publishes the powers of a secret `tau` in both groups, and in the
first group also their multiples by two more secrets `alpha` and `beta`. It does not depend on a
circuit.

* `ReferenceString.ofSecrets` computes the string from its secrets.
* `ReferenceString.contribute` multiplies further secrets into a string without knowing the ones
  that are in it: element `i` of every list is scaled by the `i`-th power of the new `tau`.
* `ReferenceString.isWellFormed` checks a string against itself. The pairing tells whether two
  elements have the same ratio as two others, so it can compare each power with its successor and
  both with the first power in the other group.
-/

namespace SuccinctProof

/-- The published result of the first phase. -/
structure ReferenceString (G₁ G₂ : Type) where
  /-- The powers of `tau` in the first group. -/
  tauG1 : List G₁
  /-- The powers of `tau` in the second group. -/
  tauG2 : List G₂
  /-- The powers of `tau` times `alpha`, in the first group. -/
  alphaTauG1 : List G₁
  /-- The powers of `tau` times `beta`, in the first group. -/
  betaTauG1 : List G₁
  /-- The secret `alpha`, in the first group. -/
  alphaG1 : G₁
  /-- The secret `beta`, in the first group. -/
  betaG1 : G₁
  /-- The secret `beta`, in the second group. -/
  betaG2 : G₂
deriving DecidableEq

namespace ReferenceString

variable {p : Nat} [Modulus p] {G₁ G₂ Gₜ : Type}

/-! ### Construction -/

section Construction

variable [SMul (Fp p) G₁] [SMul (Fp p) G₂]

/-- The reference string of the given secrets, with the sizes of a configuration. Refused when a
size is zero. -/
def ofSecrets [Generated G₁] [Generated G₂] (config : CeremonyConfig)
    (secrets : Phase1Secrets p) : Except Error (ReferenceString G₁ G₂) :=
  if config.powersG1 = 0 ∨ config.powersG2 = 0 then .error .degreeTooLarge
  else
    let g : G₁ := Generated.generator
    let h : G₂ := Generated.generator
    .ok {
      tauG1 := (powersFrom secrets.tau 1 config.powersG1).map (· • g)
      tauG2 := (powersFrom secrets.tau 1 config.powersG2).map (· • h)
      alphaTauG1 := (powersFrom secrets.tau secrets.alpha config.powersG1).map (· • g)
      betaTauG1 := (powersFrom secrets.tau secrets.beta config.powersG1).map (· • g)
      alphaG1 := secrets.alpha • g
      betaG1 := secrets.beta • g
      betaG2 := secrets.beta • h }

/-- Each element of a list scaled by `scale` and the power of `x` with its position. -/
def scaleByPowers {G : Type} [SMul (Fp p) G] (x scale : Fp p) (elements : List G) : List G :=
  (powersFrom x scale elements.length).zipWith (· • ·) elements

/-- The reference string whose secrets are those of `srs` times the given ones. Only as many powers
of the new `tau` are provided as the longer list of powers of `tau` needs, and a string with more
multiples of `alpha` or `beta` than that is refused. -/
def contribute (srs : ReferenceString G₁ G₂) (secrets : Phase1Secrets p) :
    Except Error (ReferenceString G₁ G₂) :=
  if max srs.tauG1.length srs.tauG2.length <
      max srs.alphaTauG1.length srs.betaTauG1.length then .error .missingEntry
  else
    .ok {
      tauG1 := scaleByPowers secrets.tau 1 srs.tauG1
      tauG2 := scaleByPowers secrets.tau 1 srs.tauG2
      alphaTauG1 := scaleByPowers secrets.tau secrets.alpha srs.alphaTauG1
      betaTauG1 := scaleByPowers secrets.tau secrets.beta srs.betaTauG1
      alphaG1 := secrets.alpha • srs.alphaG1
      betaG1 := secrets.beta • srs.betaG1
      betaG2 := secrets.beta • srs.betaG2 }

end Construction

/-! ### Self-check -/

section WellFormed

variable [DecidableEq G₁] [DecidableEq G₂] [DecidableEq Gₜ] [Generated G₁] [Generated G₂]
  [Pairing G₁ G₂ Gₜ]

/-- Whether `related` holds of every two neighbours in a list. -/
def consecutive {α : Type} (related : α → α → Bool) : List α → Bool
  | x :: y :: rest => related x y && consecutive related (y :: rest)
  | _ => true

/-- Whether each element of the first group is `tau` times its predecessor, for the `tau` behind an
element of the second group. -/
def risesG1 (tauH : G₂) : List G₁ → Bool :=
  consecutive fun x y ↦ Pairing.pair y (Generated.generator : G₂) = Pairing.pair x tauH

/-- Whether each element of the second group is `tau` times its predecessor, for the `tau` behind an
element of the first group. -/
def risesG2 (tauG : G₁) : List G₂ → Bool :=
  consecutive fun x y ↦ Pairing.pair (Generated.generator : G₁) y = Pairing.pair tauG x

/-- Whether the string is one that `ofSecrets` computes from some secrets, with at least two powers
in each group. -/
def isWellFormed (srs : ReferenceString G₁ G₂) : Bool :=
  match srs.tauG1, srs.tauG2, srs.alphaTauG1, srs.betaTauG1 with
  | g :: tauG :: _, h :: tauH :: _, alphaG :: _, betaG :: _ =>
    srs.alphaTauG1.length = srs.tauG1.length && srs.betaTauG1.length = srs.tauG1.length &&
    g = Generated.generator && h = Generated.generator &&
    alphaG = srs.alphaG1 && betaG = srs.betaG1 &&
    risesG1 tauH srs.tauG1 && risesG1 tauH srs.alphaTauG1 && risesG1 tauH srs.betaTauG1 &&
    risesG2 tauG srs.tauG2 &&
    Pairing.pair srs.betaG1 (Generated.generator : G₂) =
      Pairing.pair (Generated.generator : G₁) srs.betaG2
  | _, _, _, _ => false

end WellFormed

end ReferenceString

end SuccinctProof
