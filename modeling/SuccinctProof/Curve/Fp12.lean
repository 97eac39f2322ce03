import SuccinctProof.Curve.CoordinateField

/-!
# The extension of degree twelve

The values of the pairings lie in an extension of degree twelve, built in two steps over `Fp2`: a
cubic extension `Fp6` by a root `v` of `v ^ 3 = xi`, and over it a quadratic extension `Fp12` by a
root `w` of `w ^ 2 = v`. The element `xi` of `Fp2` is a parameter of both types.

So `w ^ 6 = xi`, and the powers of `w` up to the fifth are a basis over `Fp2`. Two facts make some
powers cheap. The power map with exponent `p` conjugates the elements of `Fp2` and multiplies `w` by
a fixed power of `xi` (`Fp12.frobenius`). And in the subgroup of order `p ^ 4 - p ^ 2 + 1` the
inverse is the conjugate over `Fp6`, and a square is put together from three squares in quadratic
extensions of `Fp2` (`Fp12.unitarySquare`).
-/

namespace SuccinctProof

/-- An element `c0 + c1 * v + c2 * v ^ 2` with `v ^ 3 = xi`. -/
structure Fp6 {p : Nat} (xi : Fp2 p) where
  /-- The part without `v`. -/
  c0 : Fp2 p
  /-- The factor of `v`. -/
  c1 : Fp2 p
  /-- The factor of `v ^ 2`. -/
  c2 : Fp2 p
deriving DecidableEq

/-- An element `c0 + c1 * w` with `w ^ 2 = v`. -/
structure Fp12 {p : Nat} (xi : Fp2 p) where
  /-- The part without `w`. -/
  c0 : Fp6 xi
  /-- The factor of `w`. -/
  c1 : Fp6 xi
deriving DecidableEq

variable {p : Nat} [Modulus p] {xi : Fp2 p}

namespace Fp6

instance : Zero (Fp6 xi) := ⟨⟨0, 0, 0⟩⟩

instance : One (Fp6 xi) := ⟨⟨1, 0, 0⟩⟩

instance : Add (Fp6 xi) := ⟨fun a b ↦ ⟨a.c0 + b.c0, a.c1 + b.c1, a.c2 + b.c2⟩⟩

instance : Sub (Fp6 xi) := ⟨fun a b ↦ ⟨a.c0 - b.c0, a.c1 - b.c1, a.c2 - b.c2⟩⟩

instance : Neg (Fp6 xi) := ⟨fun a ↦ ⟨-a.c0, -a.c1, -a.c2⟩⟩

/-- The product. -/
def mul (a b : Fp6 xi) : Fp6 xi :=
  let d1 := xi * b.c1
  let d2 := xi * b.c2
  ⟨.sumOfProducts a.c0 b.c0 a.c1 d2 a.c2 d1,
    .sumOfProducts a.c0 b.c1 a.c1 b.c0 a.c2 d2,
    .sumOfProducts a.c0 b.c2 a.c1 b.c1 a.c2 b.c0⟩

instance : Mul (Fp6 xi) := ⟨mul⟩

/-- An element times `v`. -/
def mulV (a : Fp6 xi) : Fp6 xi := ⟨xi * a.c2, a.c0, a.c1⟩

/-- The inverse, and zero for zero. -/
def inv (a : Fp6 xi) : Fp6 xi :=
  let t0 := a.c0 * a.c0 - xi * (a.c1 * a.c2)
  let t1 := xi * (a.c2 * a.c2) - a.c0 * a.c1
  let t2 := a.c1 * a.c1 - a.c0 * a.c2
  let d := (a.c0 * t0 + xi * (a.c2 * t1 + a.c1 * t2))⁻¹
  ⟨t0 * d, t1 * d, t2 * d⟩

instance : Inv (Fp6 xi) := ⟨inv⟩

end Fp6

namespace Fp12

instance : One (Fp12 xi) := ⟨⟨1, 0⟩⟩

/-- The product. -/
def mul (a b : Fp12 xi) : Fp12 xi :=
  let t0 := a.c0 * b.c0
  let t1 := a.c1 * b.c1
  ⟨t0 + t1.mulV, (a.c0 + a.c1) * (b.c0 + b.c1) - t0 - t1⟩

instance : Mul (Fp12 xi) := ⟨mul⟩

/-- The square of an element. -/
def square (a : Fp12 xi) : Fp12 xi :=
  let t := a.c0 * a.c1
  ⟨(a.c0 + a.c1) * (a.c0 + a.c1.mulV) - t - t.mulV, t + t⟩

/-- The conjugate over `Fp6`, which is the power with exponent the sixth power of `p`. -/
def conj (a : Fp12 xi) : Fp12 xi := ⟨a.c0, -a.c1⟩

/-- The inverse, and zero for zero. -/
def inv (a : Fp12 xi) : Fp12 xi :=
  let d := (a.c0 * a.c0 - (a.c1 * a.c1).mulV)⁻¹
  ⟨a.c0 * d, -(a.c1 * d)⟩

instance : Inv (Fp12 xi) := ⟨inv⟩

/-- The power of `a` with exponent `p`, when `gamma` is the power of `xi` with exponent one sixth of
`p - 1`. -/
def frobenius (gamma : Fp2 p) (a : Fp12 xi) : Fp12 xi :=
  let gamma2 := gamma * gamma
  let gamma3 := gamma2 * gamma
  let gamma4 := gamma2 * gamma2
  ⟨⟨a.c0.c0.conj, a.c0.c1.conj * gamma2, a.c0.c2.conj * gamma4⟩,
    ⟨a.c1.c0.conj * gamma, a.c1.c1.conj * gamma3, a.c1.c2.conj * (gamma4 * gamma)⟩⟩

/-- The square of an element of the subgroup whose order is `p ^ 4 - p ^ 2 + 1`. It is made of the
squares `x * x + xi * (y * y)` and `2 * (x * y)` of three elements `x + y * s` with `s ^ 2 = xi`. -/
def unitarySquare (a : Fp12 xi) : Fp12 xi :=
  let less (x y z : Fp2 p) : Fp2 p :=
    .sumOfMultiples 3 (.sumOfProducts x x (xi * y) y 0 0) 2 (-z)
  let more (t z : Fp2 p) : Fp2 p := .sumOfMultiples 6 t 2 z
  ⟨⟨less a.c0.c0 a.c1.c1 a.c0.c0, less a.c1.c0 a.c0.c2 a.c0.c1, less a.c0.c1 a.c1.c2 a.c0.c2⟩,
    ⟨more (xi * (a.c0.c1 * a.c1.c2)) a.c1.c0, more (a.c0.c0 * a.c1.c1) a.c1.c1,
      more (a.c1.c0 * a.c0.c2) a.c1.c2⟩⟩

/-- The power of an element of that subgroup with exponent given by the lowest `bits` binary digits
of `n`. -/
def unitaryPow (base : Fp12 xi) : (bits n : Nat) → Fp12 xi
  | 0, _ => 1
  | bits + 1, n =>
    if n = 0 then 1
    else
      let root := (unitaryPow base bits (n / 2)).unitarySquare
      if n % 2 = 0 then root else root * base

end Fp12

end SuccinctProof
