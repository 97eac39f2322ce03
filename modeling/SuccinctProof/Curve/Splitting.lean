import SuccinctProof.Curve.Point

/-!
# Multiples of points by split scalars

When `zeta` is a cube root of one, `(x, y) ↦ (zeta * x, y)` maps the points of every curve
`y ^ 2 = x ^ 3 + b` to points of the same curve, and is compatible with addition. On the subgroup of
prime order it is the multiple by a fixed number. If that number is `-base`, then a scalar that is
split as `low + high * base` has the multiple

`(low + high * base) • P = low • P - high • zeta(P)`,

where `zeta(P)` is the image of `P`. Both parts are short when `base` is about the square root of
the order, so the right side needs half as many doublings when its two terms are computed together.

`Splitting.multiple` is the right side. It is the multiple by the scalar for a point of the
subgroup, and only there: elsewhere the map need not be a multiple, or not this one. A sum of points
that lie on different curves of the same form is such another point.
-/

namespace SuccinctProof

/-- A map of a curve to itself that acts as a negative number on the subgroup. -/
structure Splitting (K : Type) where
  /-- The cube root of one by which first coordinates are multiplied. -/
  zeta : K
  /-- The number whose negative the map is on the subgroup. -/
  base : Nat

variable {K : Type}

namespace Splitting

/-! ### Scalars -/

/-- The number of times that `base` goes into a number, to the nearest; a half is dropped. -/
def high (S : Splitting K) (k : Nat) : Nat := (k + (S.base - 1) / 2) / S.base

/-- What remains of a number, which is negative if the quotient was rounded up. -/
def low (S : Splitting K) (k : Nat) : Int := k - S.high k * S.base

/-! ### Points -/

variable [CoordinateField K] {E : Curve K}

/-- The image of a point. -/
def map (S : Splitting K) : Point E → Point E
  | .infinity => .infinity
  | .affine x y => .affine (S.zeta * x) y

/-- The multiple of a point of the subgroup by a number. -/
def multiple (S : Splitting K) (k : Nat) (P : Point E) : Point E :=
  P.zsmul (S.low k) - (S.map P).nsmul (S.high k)

end Splitting

end SuccinctProof
