import SuccinctProof.Curve.Ate

/-!
# The curve BN254

Coordinates and scalars both have 254 binary digits. The twist is of the kind that divides the
constant of the equation.
-/

namespace SuccinctProof.Bn254

/-- The number of coordinates. -/
def q : Nat := 21888242871839275222246405745257275088696311157297823662689037894645226208583

/-- The order of the groups of points. -/
def r : Nat := 21888242871839275222246405745257275088548364400416034343698204186575808495617

instance : Modulus q := ⟨by decide⟩

instance : Modulus r := ⟨by decide⟩

/-- The element by which the constant of the equation is divided for the twist. -/
def xi : Fp2 q := ⟨.ofNat 9, 1⟩

/-- The curve, its twist, and its number in the family. -/
def curve : AteCurve q where
  g1 := { b := .ofNat 3, baseX := .ofNat 1, baseY := .ofNat 2, order := r }
  g2 := {
    b := xi⁻¹.scale (.ofNat 3)
    baseX := ⟨
      .ofNat 10857046999023057135944570762232829481370756359578518086990519993285655852781,
      .ofNat 11559732032986387107991004021392285783925812861821192530917403151452391805634⟩
    baseY := ⟨
      .ofNat 8495653923123431417604973247489272438418190587263600148770280649306958101930,
      .ofNat 4082367875863433681332203403145435568316851327593401208105741076214120093531⟩
    order := r }
  xi := xi
  gamma := xi ^ ((q - 1) / 6)
  twist := .divided
  family := .bn
  x := 4965661367192848881

/-- Scalars. -/
abbrev Scalar : Type := Fp r

/-- Points over the prime field. -/
abbrev G1 : Type := Point curve.g1

/-- Points over the quadratic extension. -/
abbrev G2 : Type := Point curve.g2

/-- Scalars are taken in one part. -/
instance : SplitMul Scalar G1 := ⟨(· • ·)⟩

end SuccinctProof.Bn254
