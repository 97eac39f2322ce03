import SuccinctProof.Poly.Basic

/-!
# Groups with a pairing

The proof system works over two groups on which the scalars act and a pairing of them into a third
group. It uses nothing else about them, so it is written for any types with these operations:

* the two source groups have `0`, `+`, `-` and scalar multiples, and a distinguished generator
  (`Generated`);
* multiples in the first source group can also be taken with the scalar in two parts (`SplitMul`);
* the target group has `1`, `*` and a decidable equality, and elements of the source groups are
  paired into it (`Pairing`).

`Pairing.pairProduct` is the product of several pairings, which can be computed with less work than
the pairings one by one. It is an operation of its own, so that a verifier that uses it and one that
does not are two different computations. In the same way `SplitMul.splitMul` is a computation of its
own, which has the value of `•` on the elements of the group; on values of the type that stand for
no element of the group it may have another.
-/

namespace SuccinctProof

/-- A group with a distinguished element that is meant to generate it. -/
class Generated (G : Type) where
  /-- The generator. -/
  generator : G

/-- Multiples of group elements by scalars that are split into two parts. -/
class SplitMul (S G : Type) where
  /-- The multiple of an element. -/
  splitMul : S → G → G

/-- A pairing of two groups into a third. -/
class Pairing (G₁ G₂ : Type) (Gₜ : outParam Type) where
  /-- The pairing of two elements. -/
  pair : G₁ → G₂ → Gₜ
  /-- The product of the pairings of several pairs. -/
  pairProduct : List (G₁ × G₂) → Gₜ

variable {p : Nat} {G : Type} [Zero G] [Add G] [SMul (Fp p) G]

/-- The sum of the given multiples of group elements, as far as both lists go. -/
def combineMultiples (scalars : List (Fp p)) (elements : List G) : G :=
  (scalars.zipWith (· • ·) elements).sum

/-- The value of a polynomial at a secret, in the exponent: when `powers` are the multiples of one
element by the powers of the secret, the result is its multiple by the value. Refused when the
polynomial has more coefficients than there are powers. -/
def Poly.evalInGroup (f : Poly p) (powers : List G) : Except Error G :=
  if powers.length < f.length then .error .degreeTooLarge
  else .ok (combineMultiples f.coeffs powers)

/-- The powers `1, x, …` of a residue, as many as asked for, times `scale`. -/
def powersFrom [Modulus p] (x scale : Fp p) : Nat → List (Fp p)
  | 0 => []
  | n + 1 => scale :: powersFrom x (scale * x) n

end SuccinctProof
