import SuccinctProof.RankOneSystem
import SuccinctProof.VariableSystem.Basic

/-!
# Replaying a netlist into a host of constraint systems

The constraints of a netlist can be handed to a library that builds constraint systems over
variables. Such a library is a `ConstraintHost`: it allocates variables, builds linear combinations
and collects constraints, in a state of its own. What its states hold can be read off as a
`VariableSystem`, and nothing else is assumed here of how it keeps them.

A `Replay` is a netlist with its constraint matrices and, to prove something, a value for each wire.
`Replay.build` runs through the wires in their order. The first one becomes the constant one,
whatever value it has; each other wire is allocated as an instance variable if it is public and as a
witness variable otherwise (`Replay.newVariable`). Then each row of the matrices becomes a
combination with a term for each nonzero entry (`combinationOf`), and each row of the system a
constraint.
-/

namespace SuccinctProof

/-- A library of constraint systems over variables. `S` are its systems, finished or not, and `L` its
linear combinations. -/
class ConstraintHost (S : Type) (p : outParam Nat) (L : outParam Type) where
  /-- A system without constraints. -/
  start : VariableSystem.Purpose → S
  /-- Allocates an instance variable, with a value if one is needed. -/
  newInstance : Except Error (Fp p) → S → Except Error (Variable × S)
  /-- Allocates a witness variable, with a value if one is needed. -/
  newWitness : Except Error (Fp p) → S → Except Error (Variable × S)
  /-- The combination without terms. -/
  noTerms : L
  /-- A combination and one more term. -/
  addTerm : L → Fp p → Variable → L
  /-- Adds the constraint that the product of two combinations is a third. -/
  enforce : L → L → L → S → Except Error S
  /-- The terms of a combination. -/
  terms : L → Combination p
  /-- What a system holds. -/
  contents : S → VariableSystem p
  /-- The column of a variable in the exported matrices. -/
  column : S → Variable → Nat
  /-- The exported rows of the left factors. -/
  leftRows : S → List (SparseRow p)
  /-- The exported rows of the right factors. -/
  rightRows : S → List (SparseRow p)
  /-- The exported rows of the products. -/
  productRows : S → List (SparseRow p)
  /-- The first constraint that does not hold, if there is one. -/
  firstViolated : S → Except Error (Option Nat)

/-- A netlist with its constraint matrices, and the values of its wires if there are any. -/
structure Replay (p : Nat) where
  /-- The netlist. -/
  netlist : Netlist
  /-- Its constraints. -/
  system : RankOneSystem p
  /-- The values of its wires. -/
  witness : Option (List (Fp p))
deriving DecidableEq

variable {p : Nat} [Modulus p] {S L : Type} [ConstraintHost S p L]

/-- The combination of the entries of a dense row that are not zero, as far as there are variables
for them. -/
def combinationOf (S : Type) [ConstraintHost S p L] (row : List (Fp p))
    (vars : List Variable) : L :=
  ((row.zip vars).filter fun (x, _) ↦ x ≠ 0).foldl
    (fun acc (x, v) ↦ ConstraintHost.addTerm S acc x v) (ConstraintHost.noTerms S)

namespace Replay

/-- A netlist and values for its wires, refused when there is not one value for each wire, or when
the netlist has no constraint matrices. -/
def new (n : Netlist) (witness : Option (List (Fp p))) : Except Error (Replay p) := do
  if let some w := witness then
    if w.length ≠ n.numWires then throw (.witnessLength n.numWires w.length)
  return ⟨n, ← RankOneSystem.ofNetlist n, witness⟩

/-- The value of a wire. -/
def wireValue (r : Replay p) (wire : Nat) : Except Error (Fp p) :=
  match r.witness with
  | none => .error .assignmentMissing
  | some w =>
    match w[wire]? with
    | none => .error .missingEntry
    | some x => .ok x

/-- A new variable for a wire: an instance variable if the wire is public, and a witness variable
otherwise. -/
def newVariable (r : Replay p) (wire : Nat) (s : S) : Except Error (Variable × S) :=
  if wire < r.netlist.numPublic then ConstraintHost.newInstance (r.wireValue wire) s
  else ConstraintHost.newWitness (r.wireValue wire) s

/-- Allocates the variable of a wire, and puts it after those of the wires before. -/
def allocateWire (r : Replay p) : List Variable × S → Nat → Except Error (List Variable × S)
  | (vars, s), wire => do
    let (v, s) ← r.newVariable wire s
    return (vars ++ [v], s)

/-- The variables of all wires, in the order of the wires. -/
def allocate (r : Replay p) (s : S) : Except Error (List Variable × S) :=
  (List.range' 1 (r.netlist.numWires - 1)).foldlM r.allocateWire ([.one], s)

/-- Adds a constraint for each row of three matrices, refused when one of them is too short. -/
def enforceRows (vars : List Variable) :
    (as bs cs : List (List (Fp p))) → S → Except Error S
  | [], _, _, s => .ok s
  | a :: as, b :: bs, c :: cs, s => do
    let s ← ConstraintHost.enforce (combinationOf S a vars) (combinationOf S b vars)
      (combinationOf S c vars) s
    enforceRows vars as bs cs s
  | _, _, _, _ => .error .missingEntry

/-- Adds the variables and the constraints of a netlist to a system. -/
def generate (r : Replay p) (s : S) : Except Error S := do
  let (vars, s) ← r.allocate s
  enforceRows vars r.system.a r.system.b r.system.c s

/-- A new system with the variables and the constraints of a netlist. -/
def build (r : Replay p) (purpose : VariableSystem.Purpose) : Except Error S :=
  r.generate (ConstraintHost.start purpose)

end Replay

end SuccinctProof
