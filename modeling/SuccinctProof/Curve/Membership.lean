import SuccinctProof.Curve.Ate

/-!
# Membership in the group on the twist

The power map with exponent `p` acts on the points of the curve over `Fp12`, and so, through the
twist, on the points of the twist (`AteCurve.frobenius`). On the twist there is one group of points
of the order that the pairing needs, and there the map multiplies by the trace of the curve less
one. That is also how the group is recognised (`AteCurve.isEigenpoint`): the multiple is much
smaller than the order, so the test is faster than multiplying by the order.

The equation of the twist does not enter the test. A pair of coordinates that does not satisfy it
lies on another curve of the same form, and passes or fails there.
-/

namespace SuccinctProof.AteCurve

variable {p : Nat} [Modulus p] (A : AteCurve p)

/-- The map of the twist that belongs to the power map with exponent `p`. -/
def frobenius : Point A.g2 → Point A.g2
  | .infinity => .infinity
  | .affine x y =>
    let gamma :=
      match A.twist with
      | .divided => A.gamma
      | .multiplied => A.gamma⁻¹
    .affine (x.conj * (gamma * gamma)) (y.conj * (gamma * gamma * gamma))

/-- Whether the power map multiplies a point of the twist by the trace less one. -/
def isEigenpoint (Q : Point A.g2) : Bool :=
  let multiple := Q.nsmul A.loop
  A.frobenius Q = if A.traceLessOne < 0 then -multiple else multiple

end SuccinctProof.AteCurve
