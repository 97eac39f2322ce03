import SuccinctProof.Poly.Basic

/-!
# Long division

`Poly.divMod` divides on untrimmed coefficient lists. Leading zeros of the divisor are ignored;
leading zeros of the dividend are not, and the remainder is as long as the dividend.

The work is done by `Poly.reduce` in a buffer that holds the dividend at first. From the highest
position at which the divisor fits down to the lowest one, a multiple of the divisor is taken off
there, such that the coefficient under its highest one becomes zero. Nothing is removed from the
buffer: what has become zero stays in it, and in the end the buffer is the remainder.

`Poly.exactDiv` is division for those who expect no remainder, and refuses when there is one.
-/

namespace SuccinctProof.Poly

variable {p : Nat} [Modulus p]

/-- A coefficient list without its leading zeros. -/
def trim : List (Fp p) → List (Fp p)
  | [] => []
  | c :: cs =>
    match trim cs with
    | [] => if c = 0 then [] else [c]
    | rest => c :: rest

/-- Quotient and remainder of a coefficient list by the nonempty list `divisor`, where `lead` is
the inverse of the divisor's highest coefficient. The coefficients above the lowest one are divided
first. If the divisor fits from the lowest one on, it is taken off there as often as the coefficient
under its highest one says. -/
def reduce (divisor : List (Fp p)) (lead : Fp p) : List (Fp p) → List (Fp p) × List (Fp p)
  | [] => ([], [])
  | c :: cs =>
    let (quotient, remainder) := reduce divisor lead cs
    let window := c :: remainder
    match window[divisor.length - 1]? with
    | none => (quotient, window)
    | some top =>
      let k := top * lead
      (k :: quotient, updateWith (fun r d ↦ r - k * d) window divisor)

/-- Quotient and remainder. The remainder has as many coefficients as the dividend. Division by a
polynomial without a nonzero coefficient is refused. -/
def divMod (f g : Poly p) : Except Error (Poly p × Poly p) := do
  let divisor := trim g.coeffs
  let lead ← (divisor.getLastD 0).inverse
  let (quotient, remainder) := reduce divisor lead f.coeffs
  return (⟨quotient⟩, ⟨remainder⟩)

/-- The quotient of a division that leaves nothing, refused when something is left. -/
def exactDiv (f g : Poly p) : Except Error (Poly p) := do
  let (quotient, remainder) ← f.divMod g
  if remainder.isZero then return quotient else throw .notDivisible

end SuccinctProof.Poly
