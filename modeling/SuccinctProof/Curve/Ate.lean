import SuccinctProof.Curve.Fp12
import SuccinctProof.Curve.Point

/-!
# The ate pairing

The pairing of a point `P` over `Fp` with a point `Q` of the twist over `Fp2`. It is computed in two
stages.

* `AteCurve.miller` follows the multiples of `Q` along the binary digits of the trace of the curve
  less one, and multiplies up the values at `P` of the lines that are used to form them. The twist
  is sent into the curve over `Fp12` by powers of `w`, and each line is scaled by an element of a
  proper subfield, so that the multiples of `Q` can be kept in homogeneous coordinates.
* `AteCurve.finalPower` raises the result to a multiple of the order of the multiplicative group of
  `Fp12` divided by the order of the points. That removes the factors from proper subfields, and
  leaves an element of the same order as the points.

The numbers of a curve, `p` among them, are polynomials in one number `x`, by which families of
curves are made. The length of the loop and the exponent of the final power follow from it.

The product of several pairings needs the second stage only once.

Neither stage asks whether the points are on their curves. Off them the result is some element of
`Fp12`, and it depends on the formulas: the one for doubling uses the constant of the twist.
-/

namespace SuccinctProof

/-- How the curve over `Fp2` is twisted: its constant is the one over `Fp` divided by `xi`, or
multiplied by it. -/
inductive TwistKind where
  /-- The constant is divided. -/
  | divided
  /-- The constant is multiplied. -/
  | multiplied
deriving DecidableEq

/-- A family of curves whose numbers are polynomials in one number. -/
inductive CurveFamily where
  /-- The family of BLS12-381. -/
  | bls12
  /-- The family of BN254. -/
  | bn
deriving DecidableEq

/-- The point `(x / z, y / z)`. -/
structure Homogeneous (K : Type) where
  /-- The first coordinate times `z`. -/
  x : K
  /-- The second coordinate times `z`. -/
  y : K
  /-- The common denominator. -/
  z : K

/-- What the ate pairing needs to know about a curve and its twist. -/
structure AteCurve (p : Nat) where
  /-- The curve over the prime field. -/
  g1 : Curve (Fp p)
  /-- The twist over the quadratic extension. -/
  g2 : Curve (Fp2 p)
  /-- The element whose sixth root generates the extension of degree twelve. -/
  xi : Fp2 p
  /-- The power of `xi` with exponent one sixth of `p - 1`. -/
  gamma : Fp2 p
  /-- How the twist is made from the curve. -/
  twist : TwistKind
  /-- The family. -/
  family : CurveFamily
  /-- The number of the curve in its family. -/
  x : Int

namespace AteCurve

variable {p : Nat} [Modulus p] (A : AteCurve p)

/-- The value of a line that meets the points of the twist in slope `slope / scale` and at height
`height / scale`, at the point `(x, y)`, up to a factor that the final power removes. -/
def lineValue (scale slope height : Fp2 p) (x y : Fp p) : Fp12 A.xi :=
  match A.twist with
  | .divided => ⟨⟨scale.scale y, 0, 0⟩, ⟨-(slope.scale x), height, 0⟩⟩
  | .multiplied => ⟨⟨height, -(slope.scale x), 0⟩, ⟨0, scale.scale y, 0⟩⟩

/-- Twice a point of the twist, and the value of the tangent there at `(x, y)`. -/
def doubleStep (T : Homogeneous (Fp2 p)) (x y : Fp p) : Homogeneous (Fp2 p) × Fp12 A.xi :=
  let xx := T.x * T.x
  let yy := T.y * T.y
  let yz := T.y * T.z
  let e := A.g2.b * (T.z * T.z)
  let sum := Fp2.sumOfMultiples 1 yy 9 e
  (⟨.sumOfMultiples 2 yy 18 (-e) * (T.x * T.y), .sumOfMultiples 1 (sum * sum) 108 (-(e * e)),
      .multiple 8 (yy * yz)⟩,
    A.lineValue (.multiple 2 yz) (.multiple 3 xx) (.sumOfMultiples 1 yy 3 (-e)) x y)

/-- The sum of a point of the twist and an affine one, and the value of the chord through them at
`(x, y)`. -/
def addStep (T : Homogeneous (Fp2 p)) (qx qy : Fp2 p) (x y : Fp p) :
    Homogeneous (Fp2 p) × Fp12 A.xi :=
  let slope := T.y - qy * T.z
  let scale := T.x - qx * T.z
  let dd := scale * scale
  let e := scale * dd
  let g := T.x * dd
  let h := e + T.z * (slope * slope) - (g + g)
  (⟨scale * h, slope * (g - h) - e * T.y, T.z * e⟩,
    A.lineValue scale slope (slope * qx - scale * qy) x y)

/-- The multiple of `(qx, qy)` by the lowest `bits` binary digits of `n`, and the product of the
lines that form it, at `(x, y)`. -/
def millerBits (qx qy : Fp2 p) (x y : Fp p) : (bits n : Nat) → Homogeneous (Fp2 p) × Fp12 A.xi
  | 0, _ => (⟨0, 1, 0⟩, 1)
  | bits + 1, n =>
    if n ≤ 1 then (⟨qx, qy, 1⟩, 1)
    else
      let (T, f) := millerBits qx qy x y bits (n / 2)
      let (T, tangent) := A.doubleStep T x y
      let f := f.square * tangent
      if n % 2 = 0 then (T, f)
      else
        let (T, chord) := A.addStep T qx qy x y
        (T, f * chord)

/-- The trace of the curve less one. -/
def traceLessOne : Int :=
  match A.family with
  | .bls12 => A.x
  | .bn => 6 * (A.x * A.x)

/-- The length of the loop. -/
def loop : Nat := A.traceLessOne.natAbs

/-- The first stage: one at infinity, and the product of lines elsewhere. -/
def miller : Point A.g1 → Point A.g2 → Fp12 A.xi
  | .affine x y, .affine qx qy => (A.millerBits qx qy x y (A.loop.log2 + 1) A.loop).2
  | _, _ => 1

/-- The power with exponent `x`, of an element whose inverse is its conjugate. -/
def powX (f : Fp12 A.xi) : Fp12 A.xi :=
  let n := A.x.natAbs
  let power := f.unitaryPow (n.log2 + 1) n
  if A.x < 0 then power.conj else power

/-- A power whose exponent is a multiple of `(p ^ 4 - p ^ 2 + 1) / order`, by a factor prime to the
order. The exponents are

* three times that number, as `(x - 1) ^ 2 * (x + p) * (x ^ 2 + p ^ 2 - 1) + 3`, in the first
  family,
* `2 * x * (6 * x ^ 2 + 3 * x + 1)` times that number, as
  `(m + 6 * x ^ 2 + 2 * x + 1) + m * p + (m + 2 * x) * p ^ 2 + (m - 1) * p ^ 3` with
  `m = 12 * x ^ 3 + 6 * x ^ 2 + 4 * x`, in the second. -/
def hardPower (f : Fp12 A.xi) : Fp12 A.xi :=
  let phi := Fp12.frobenius A.gamma
  match A.family with
  | .bls12 =>
    let a := A.powX f * f.conj
    let a := A.powX a * a.conj
    let a := A.powX a * phi a
    let a := A.powX (A.powX a) * phi (phi a) * a.conj
    a * f.unitarySquare * f
  | .bn =>
    let x1 := A.powX f
    let x2 := A.powX x1
    let x3 := A.powX x2
    let two := x1.unitarySquare
    let six := x2.unitarySquare * x2
    let six := six.unitarySquare
    let twelve := (x3.unitarySquare * x3).unitarySquare.unitarySquare
    let m := twelve * six * two.unitarySquare
    m * six * two * f * phi m * phi (phi (m * two)) * phi (phi (phi (m * f.conj)))

/-- The second stage. The exponent is made of the factors `p ^ 6 - 1`, `p ^ 2 + 1`, and the rest. -/
def finalPower (f : Fp12 A.xi) : Fp12 A.xi :=
  let f := f.conj * f⁻¹
  A.hardPower ((f.frobenius A.gamma).frobenius A.gamma * f)

/-- The pairing. -/
def pair (P : Point A.g1) (Q : Point A.g2) : Fp12 A.xi := A.finalPower (A.miller P Q)

/-- The product of several pairings. -/
def pairProduct (pairs : List (Point A.g1 × Point A.g2)) : Fp12 A.xi :=
  A.finalPower ((pairs.map fun (P, Q) ↦ A.miller P Q).prod)

end AteCurve

/-- The points of a curve and of its twist, paired by the ate pairing. -/
instance {p : Nat} [Modulus p] {A : AteCurve p} :
    Pairing (Point A.g1) (Point A.g2) (Fp12 A.xi) where
  pair := A.pair
  pairProduct := A.pairProduct

end SuccinctProof
