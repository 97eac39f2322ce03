import SuccinctProof.Poly.Basic

/-!
# Interpolation

The interpolating polynomial through `n` points is the combination of the `n` Lagrange basis
polynomials of the nodes, weighted by the values. It has exactly `n` coefficients.

The basis depends on the nodes alone. `Poly.lagrangeBasis` computes it, and `Poly.interpolate` only
combines, so many lists of values over the same nodes share one basis. The basis exists unless a
node is repeated, whatever the values are.
-/

namespace SuccinctProof.Poly

variable {p : Nat} [Modulus p]

/-- The product of the linear factors of a list of roots. -/
def ofRoots (roots : List (Fp p)) : Poly p :=
  roots.foldr (fun a f ↦ linear a * f) 1

/-- The numbers `1, …, n`, at which `n` values are interpolated when no other nodes are given. -/
def nodes (n : Nat) : List (Fp p) :=
  (List.range' 1 n).map Fp.ofNat

/-- The vanishing polynomial of the numbers `1, …, n`. -/
def vanishing (n : Nat) : Poly p :=
  ofRoots (nodes n)

/-- Every element of a list together with the other elements. -/
def selections {α : Type} : List α → List (α × List α)
  | [] => []
  | a :: as => (a, as) :: (selections as).map fun (b, bs) ↦ (b, a :: bs)

/-- The polynomial that is one at `node`, zero at `others`, and has one coefficient more than there
are others. Refused when `node` is among them. -/
def lagrange (node : Fp p) (others : List (Fp p)) : Except Error (Poly p) := do
  let weight ← ((others.map (node - ·)).prod).inverse
  return (ofRoots others).scale weight

/-- The Lagrange basis polynomials of a list of nodes, in its order. -/
def lagrangeBasis (nodes : List (Fp p)) : Except Error (List (Poly p)) :=
  (selections nodes).mapM fun (node, others) ↦ lagrange node others

/-- The polynomial through the given points, with one coefficient for each of them. Refused when
two points share their first coordinate. -/
def interpolate (points : List (Fp p × Fp p)) : Except Error (Poly p) := do
  let basis ← lagrangeBasis (points.map Prod.fst)
  return combine (points.map Prod.snd) basis

end SuccinctProof.Poly
