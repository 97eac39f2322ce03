import SuccinctProof.Poly.Division
import SuccinctProof.Poly.Interpolation
import SuccinctProof.RankOneSystem

/-!
# Quadratic arithmetic programs

A quadratic arithmetic program lifts a rank-one constraint system to polynomials. Constraint `i`
becomes the point `i + 1`, every column of a matrix becomes the polynomial through its entries at
these points, and the rows a vector satisfies are the points where `A * B - C` is zero, for the
combinations `A`, `B`, `C` of the columns with the vector. All rows hold exactly when `A * B - C`
is divisible by the vanishing polynomial of the points, and `Qap.quotient` is the result of that
division.

A column keeps one coefficient for each constraint, with its leading zeros.
-/

namespace SuccinctProof

/-- Polynomials for the three matrices of a constraint system, one for each wire. -/
structure Qap (p : Nat) where
  /-- The columns of the left factors. -/
  a : List (Poly p)
  /-- The columns of the right factors. -/
  b : List (Poly p)
  /-- The columns of the products. -/
  c : List (Poly p)
  /-- The vanishing polynomial of the constraint points. -/
  z : Poly p
  /-- The number of leading wires that are public. -/
  numPublic : Nat
deriving DecidableEq

namespace Qap

variable {p : Nat} [Modulus p]

/-- The number of wires. -/
def numWires (q : Qap p) : Nat := q.a.length

/-- The number of constraints, which is the degree of the vanishing polynomial. -/
def numConstraints (q : Qap p) : Nat := q.z.degree

/-! ### Lifting -/

/-- The first `width` columns of a matrix, each interpolated over the points of its rows. -/
def liftColumns (rows : List (List (Fp p))) (width : Nat) : Except Error (List (Poly p)) := do
  let basis ← Poly.lagrangeBasis (Poly.nodes rows.length)
  return (List.range width).map fun j ↦ Poly.combine (rows.map (·.getD j 0)) basis

/-- The program of a constraint system whose first `numPublic` wires are public. Refused without
constraints, without public wires, with more public wires than there are wires, and with a row that
has fewer entries than there are wires. -/
def ofRankOneSystem (m : RankOneSystem p) (numPublic : Nat) : Except Error (Qap p) := do
  if m.numConstraints = 0 then
    throw (.invalidCircuit .noConstraints)
  if numPublic = 0 ∨ m.numWires < numPublic then
    throw (.invalidCircuit (.publicCount numPublic m.numWires))
  if (m.a ++ m.b ++ m.c).any (·.length < m.numWires) then
    throw .missingEntry
  let a ← liftColumns m.a m.numWires
  let b ← liftColumns m.b m.numWires
  let c ← liftColumns m.c m.numWires
  return ⟨a, b, c, Poly.vanishing m.numConstraints, numPublic⟩

/-- The program of a netlist, whose public wires are the constant one and the inputs. -/
def ofNetlist (n : Netlist) : Except Error (Qap p) := do
  ofRankOneSystem (← RankOneSystem.ofNetlist n) n.numPublic

/-! ### The quotient of a witness -/

/-- The combination of the left columns with a vector. -/
def left (q : Qap p) (w : List (Fp p)) : Poly p := Poly.combine w q.a

/-- The combination of the right columns with a vector. -/
def right (q : Qap p) (w : List (Fp p)) : Poly p := Poly.combine w q.b

/-- The combination of the product columns with a vector. -/
def product (q : Qap p) (w : List (Fp p)) : Poly p := Poly.combine w q.c

/-- The polynomial `h` with `A * B - C = h * z`. Refused when the vector does not have one value for
each wire, and when there is no such polynomial. -/
def quotient (q : Qap p) (w : List (Fp p)) : Except Error (Poly p) :=
  if w.length ≠ q.numWires then .error (.witnessLength q.numWires w.length)
  else (q.left w * q.right w - q.product w).exactDiv q.z

end Qap

end SuccinctProof
