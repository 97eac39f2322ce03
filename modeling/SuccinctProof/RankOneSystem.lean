import SuccinctProof.Netlist.Basic

/-!
# Rank-one constraint systems

A constraint system is three matrices with one row for each constraint and one column for each
wire. A vector of wire values satisfies a row when the product of its dot products with the rows of
`a` and `b` is its dot product with the row of `c`.

`RankOneSystem.ofNetlist` writes one row for each gate. A product puts its operands into `a` and
`b`. A sum puts both into `a`, adding up when they fall on one wire, and the constant one into `b`.
The target stands in `c`.

Rows are plain lists, and a dot product stops at the shorter side, so a row of another width than
the system's number of wires still has a meaning. The number of constraints is the number of rows of
`a`; a constraint that lacks a row in `b` or `c` cannot be checked, which is only noticed when every
constraint before it holds.
-/

namespace SuccinctProof

/-- Three matrices, given by their rows, over a number of wires. -/
structure RankOneSystem (p : Nat) where
  /-- The rows of the left factors. -/
  a : List (List (Fp p))
  /-- The rows of the right factors. -/
  b : List (List (Fp p))
  /-- The rows of the products. -/
  c : List (List (Fp p))
  /-- The number of wires. -/
  numWires : Nat
deriving DecidableEq

variable {p : Nat} [Modulus p]

/-- The dot product of two vectors, as far as both go. -/
def dot (xs ys : List (Fp p)) : Fp p := (xs.zipWith (· * ·) ys).sum

/-- The row with a single entry. -/
def singleRow (width : Nat) (place : Place p) : List (Fp p) :=
  (List.replicate width 0).set place.wire place.coeff

namespace PlacedGate

/-- The row of left factors of a gate. -/
def leftRow (width : Nat) (g : PlacedGate p) : List (Fp p) :=
  match g.op with
  | .mul => singleRow width g.left
  | .add =>
    ((List.replicate width 0).modify g.left.wire (· + g.left.coeff)).modify g.right.wire
      (· + g.right.coeff)

/-- The row of right factors of a gate. -/
def rightRow (width : Nat) (g : PlacedGate p) : List (Fp p) :=
  match g.op with
  | .mul => singleRow width g.right
  | .add => singleRow width ⟨0, 1⟩

/-- The row of the product of a gate. -/
def targetRow (width : Nat) (g : PlacedGate p) : List (Fp p) :=
  singleRow width g.target

end PlacedGate

namespace RankOneSystem

/-- One constraint for each gate. Refused when an operand names no wire. -/
def ofNetlist (n : Netlist) : Except Error (RankOneSystem p) := do
  let gates ← n.placedGates
  let width := n.numWires
  return ⟨gates.map (·.leftRow width), gates.map (·.rightRow width),
    gates.map (·.targetRow width), width⟩

/-- The number of constraints. -/
def numConstraints (m : RankOneSystem p) : Nat := m.a.length

/-- The position of the first constraint that a vector violates, if there is one, for constraints
given by their rows. Refused when a row is missing before that. -/
def firstViolatedRow (w : List (Fp p)) :
    (as bs cs : List (List (Fp p))) → Except Error (Option Nat)
  | [], _, _ => .ok none
  | a :: as, b :: bs, c :: cs =>
    if dot a w * dot b w = dot c w then do return (← firstViolatedRow w as bs cs).map (· + 1)
    else .ok (some 0)
  | _, _, _ => .error .missingEntry

/-- The first constraint that a vector violates, if there is one. Refused when the vector does not
have one value for each wire. -/
def firstViolated (m : RankOneSystem p) (w : List (Fp p)) : Except Error (Option Nat) :=
  if w.length ≠ m.numWires then .error (.witnessLength m.numWires w.length)
  else firstViolatedRow w m.a m.b m.c

/-- Whether a vector satisfies every constraint. -/
def isSatisfied (m : RankOneSystem p) (w : List (Fp p)) : Except Error Bool := do
  return (← m.firstViolated w).isNone

end RankOneSystem

end SuccinctProof
