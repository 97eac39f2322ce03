import SuccinctProof.Curve.CoordinateField
import SuccinctProof.PairingGroup

/-!
# Points of short curves

The curves here are `y ^ 2 = x ^ 3 + b`. A `Point` of such a curve is the point at infinity or a
pair of coordinates; that the pair satisfies the equation is not part of the type, and
`Point.isOnCurve` decides it. The type does name the curve, so that its points have a generator, and
points of different curves cannot be mixed.

Points are kept in affine coordinates, where a point has one form and equality is equality of the
coordinates. Multiples are computed in Jacobian coordinates (`Jacobian`), which need no inverse
until the end.
-/

namespace SuccinctProof

/-- The curve `y ^ 2 = x ^ 3 + b` with a base point that generates the subgroup of prime order. -/
structure Curve (K : Type) where
  /-- The constant of the equation. -/
  b : K
  /-- The first coordinate of the base point. -/
  baseX : K
  /-- The second coordinate of the base point. -/
  baseY : K
  /-- The order of the base point. -/
  order : Nat

/-- A point given by coordinates, or the point at infinity. -/
inductive Point {K : Type} (E : Curve K) where
  /-- The neutral element. -/
  | infinity
  /-- A point with two coordinates. -/
  | affine (x y : K)
deriving DecidableEq

/-- The point `(x / z ^ 2, y / z ^ 3)`, or the point at infinity when `z` is zero. -/
structure Jacobian (K : Type) where
  /-- The first coordinate times the square of `z`. -/
  x : K
  /-- The second coordinate times the cube of `z`. -/
  y : K
  /-- The common denominator. -/
  z : K

variable {K : Type} [CoordinateField K]

namespace Jacobian

/-- The point at infinity. -/
def infinity : Jacobian K := ⟨1, 1, 0⟩

/-- Twice a point. -/
def double (P : Jacobian K) : Jacobian K :=
  let a := P.x * P.x
  let b := P.y * P.y
  let c := b * b
  let s := P.x * b
  let d := s + s
  let d := d + d
  let e := a + a + a
  let x := e * e - (d + d)
  let c := c + c
  let c := c + c
  let yz := P.y * P.z
  ⟨x, e * (d - x) - (c + c), yz + yz⟩

/-- The sum of a point and an affine point. -/
def addAffine (P : Jacobian K) (x y : K) : Jacobian K :=
  if P.z = 0 then ⟨x, y, 1⟩
  else
    let zz := P.z * P.z
    let h := x * zz - P.x
    let r := y * (zz * P.z) - P.y
    if h = 0 then (if r = 0 then P.double else infinity)
    else
      let hh := h * h
      let hhh := hh * h
      let v := P.x * hh
      let x := r * r - hhh - (v + v)
      ⟨x, r * (v - x) - P.y * hhh, P.z * h⟩

/-- The multiple of an affine point by the lowest `bits` binary digits of `n`. -/
def multiple (x y : K) : (bits n : Nat) → Jacobian K
  | 0, _ => infinity
  | bits + 1, n =>
    let twice := (multiple x y bits (n / 2)).double
    if n % 2 = 0 then twice else twice.addAffine x y

end Jacobian

namespace Point

variable {E : Curve K}

instance : Zero (Point E) := ⟨infinity⟩

instance : Inhabited (Point E) := ⟨infinity⟩

instance : Generated (Point E) := ⟨affine E.baseX E.baseY⟩

/-- The affine form of a point in Jacobian coordinates. -/
def ofJacobian (P : Jacobian K) : Point E :=
  if P.z = 0 then infinity
  else
    let inverse := P.z⁻¹
    let square := inverse * inverse
    affine (P.x * square) (P.y * (square * inverse))

instance : Neg (Point E) where
  neg
    | infinity => infinity
    | affine x y => affine x (-y)

instance : Add (Point E) where
  add
    | infinity, Q => Q
    | P, infinity => P
    | affine x y, affine x' y' => ofJacobian ((⟨x, y, 1⟩ : Jacobian K).addAffine x' y')

instance : Sub (Point E) := ⟨fun P Q ↦ P + -Q⟩

/-- The multiple of a point by a natural number. -/
def nsmul (n : Nat) : Point E → Point E
  | infinity => infinity
  | affine x y => ofJacobian (.multiple x y (n.log2 + 1) n)

/-- The multiple of a point by an integer. -/
def zsmul : Int → Point E → Point E
  | .ofNat n, P => nsmul n P
  | .negSucc n, P => -nsmul (n + 1) P

instance {p : Nat} : SMul (Fp p) (Point E) := ⟨fun k P ↦ nsmul k.val P⟩

/-! ### Membership -/

/-- Whether the coordinates satisfy the equation of the curve. -/
def isOnCurve : Point E → Bool
  | infinity => true
  | affine x y => y * y = x * x * x + E.b

/-- Whether a point is taken to infinity by the order of the base point. The equation of the curve
does not enter: a pair of coordinates that does not satisfy it lies on another curve of the same
form, and the multiple is taken there. -/
def isTorsion (P : Point E) : Bool := nsmul E.order P = infinity

/-- The point with the given first coordinate, if there is one: `upper` tells which of the two
opposite points is meant. -/
def ofX? (x : K) (upper : Bool) : Option (Point E) :=
  (CoordinateField.sqrt? (x * x * x + E.b)).map fun y ↦
    affine x (if CoordinateField.isUpper y = upper then y else -y)

end Point

end SuccinctProof
