import SuccinctProof.Curve.Ate
import SuccinctProof.Curve.Splitting

/-!
# The curve BLS12-381

The coordinates have 381 binary digits and the scalars 255. The twist is of the kind that multiplies
the constant of the equation.
-/

namespace SuccinctProof.Bls12381

/-- The number of coordinates. -/
def q : Nat :=
  0x1a0111ea397fe69a4b1ba7b6434bacd764774b84f38512bf6730d2a0f6b0f6241eabfffeb153ffffb9feffffffffaaab

/-- The order of the groups of points. -/
def r : Nat := 52435875175126190479447740508185965837690552500527637822603658699938581184513

instance : Modulus q := ⟨by decide⟩

instance : Modulus r := ⟨by decide⟩

/-- The element by which the constant of the equation is multiplied for the twist. -/
def xi : Fp2 q := ⟨1, 1⟩

/-- The curve, its twist, and its number in the family. -/
def curve : AteCurve q where
  g1 := {
    b := .ofNat 4
    baseX := .ofNat 3685416753713387016781088315183077757961620795782546409894578378688607592378376318836054947676345821548104185464507
    baseY := .ofNat 1339506544944476473020471379941921221584933875938349620426543736416511423956333506472724655353366534992391756441569
    order := r }
  g2 := {
    b := xi.scale (.ofNat 4)
    baseX := ⟨
      .ofNat 352701069587466618187139116011060144890029952792775240219908644239793785735715026873347600343865175952761926303160,
      .ofNat 3059144344244213709971259814753781636986470325476647558659373206291635324768958432433509563104347017837885763365758⟩
    baseY := ⟨
      .ofNat 1985150602287291935568054521177171638300868978215655730859378665066344726373823718423869104263333984641494340347905,
      .ofNat 927553665492332455747201965776037880757740193453592970025027978793976877002675564980949289727957565575433344219582⟩
    order := r }
  xi := xi
  gamma := xi ^ ((q - 1) / 6)
  twist := .multiplied
  family := .bls12
  x := -0xd201000000010000

/-- Scalars. -/
abbrev Scalar : Type := Fp r

/-- Points over the prime field. -/
abbrev G1 : Type := Point curve.g1

/-- Points over the quadratic extension. -/
abbrev G2 : Type := Point curve.g2

/-- The map that multiplies points of the subgroup by the negative of the square of `curve.x`. -/
def splitting : Splitting (Fp q) where
  zeta := .ofNat 793479390729215512621379701633421447060886740281060493010456487427281649075476305620758731620350
  base := 228988810152649578064853576960394133504

instance : SplitMul Scalar G1 := ⟨fun k P ↦ splitting.multiple k.val P⟩

end SuccinctProof.Bls12381
