import SuccinctProof.Fp

/-!
# Constraint systems over allocated variables

A constraint system of this form has no wires. It has variables that are allocated one after the
other, each either an *instance* variable, whose value is public, or a *witness* variable, and one
variable with the constant value one. A constraint says that the product of two linear combinations
of variables is a third one.

`VariableSystem` is what such a system holds while it is built and when it is finished: the values of
its variables, in the order in which they were allocated, and its constraints. Everything that is
asked of a finished system is computed from that:

* a variable has a *column* (`VariableSystem.column`): the constant one comes first, then the
  instance variables, then the witness variables. So the columns of witness variables are only known
  when all instance variables are allocated;
* a combination is exported as the list of its nonzero coefficients with their columns
  (`VariableSystem.row`);
* the first constraint that does not hold is found from the values of the variables
  (`VariableSystem.firstViolated`).

A system is built for one of two purposes (`VariableSystem.Purpose`). For proving, each variable is
allocated with its value. For setting up, only the shape matters: no value is ever asked for, and
whether the constraints hold cannot be said.
-/

namespace SuccinctProof

/-- A variable of a constraint system. -/
inductive Variable where
  /-- The variable whose value is one. -/
  | one
  /-- An instance variable. The first one that is allocated has the index one. -/
  | inst (index : Nat)
  /-- A witness variable. The first one that is allocated has the index zero. -/
  | wit (index : Nat)
deriving DecidableEq

/-- The order of variables: the constant one, the instance variables, the witness variables. -/
def Variable.isBefore : Variable → Variable → Bool
  | one, one => false
  | one, _ => true
  | inst i, inst j => i < j
  | inst _, wit _ => true
  | wit i, wit j => i < j
  | _, _ => false

/-- A linear combination of variables, by its terms. -/
abbrev Combination (p : Nat) : Type := List (Fp p × Variable)

/-- The entries of a row that are not zero, each with its column, in ascending order. -/
abbrev SparseRow (p : Nat) : Type := List (Nat × Fp p)

/-- The coefficients of a combination that are not zero, each with the column of its variable. -/
def Combination.row {p : Nat} [Modulus p] (column : Variable → Nat) (terms : Combination p) :
    SparseRow p :=
  (terms.filter fun (x, _) ↦ x ≠ 0).map fun (x, v) ↦ (column v, x)

/-- The product of two combinations is a third. -/
structure VariableConstraint (p : Nat) where
  /-- The left factor. -/
  left : Combination p
  /-- The right factor. -/
  right : Combination p
  /-- The product. -/
  product : Combination p
deriving DecidableEq

/-- What a system over variables is built for. -/
inductive VariableSystem.Purpose where
  /-- Variables have values. -/
  | proving
  /-- Only the shape of the constraints matters. -/
  | settingUp
deriving DecidableEq

/-- Variables and constraints over them. -/
structure VariableSystem (p : Nat) where
  /-- The purpose. -/
  purpose : VariableSystem.Purpose
  /-- The number of instance variables, the constant one included. -/
  numInstance : Nat
  /-- The number of witness variables. -/
  numWitness : Nat
  /-- The values of the instance variables that have one, the constant one first. -/
  instanceValues : List (Fp p)
  /-- The values of the witness variables that have one. -/
  witnessValues : List (Fp p)
  /-- The constraints, in the order in which they were added. -/
  constraints : List (VariableConstraint p)
deriving DecidableEq

namespace VariableSystem

variable {p : Nat} [Modulus p]

/-! ### Building -/

/-- A system that has the constant one, and no constraints. -/
def empty (purpose : Purpose) : VariableSystem p where
  purpose := purpose
  numInstance := 1
  numWitness := 0
  instanceValues := [1]
  witnessValues := []
  constraints := []

/-- What is recorded of the value of a new variable: nothing if only the shape matters, and then the
value is not asked for. -/
def record (s : VariableSystem p) (value : Except Error (Fp p)) : Except Error (List (Fp p)) :=
  match s.purpose with
  | .proving => do return [← value]
  | .settingUp => .ok []

/-- Allocates an instance variable. -/
def newInstance (value : Except Error (Fp p)) (s : VariableSystem p) :
    Except Error (Variable × VariableSystem p) := do
  let values ← s.record value
  return (.inst s.numInstance,
    { s with numInstance := s.numInstance + 1, instanceValues := s.instanceValues ++ values })

/-- Allocates a witness variable. -/
def newWitness (value : Except Error (Fp p)) (s : VariableSystem p) :
    Except Error (Variable × VariableSystem p) := do
  let values ← s.record value
  return (.wit s.numWitness,
    { s with numWitness := s.numWitness + 1, witnessValues := s.witnessValues ++ values })

/-- Adds a constraint. -/
def enforce (k : VariableConstraint p) (s : VariableSystem p) : VariableSystem p :=
  { s with constraints := s.constraints ++ [k] }

/-! ### Columns and rows -/

/-- The position of a variable among all variables. -/
def column (s : VariableSystem p) : Variable → Nat
  | .one => 0
  | .inst i => i
  | .wit i => s.numInstance + i

/-- The row of a combination in the exported matrices. -/
def row (s : VariableSystem p) (terms : Combination p) : SparseRow p := terms.row s.column

/-- The number of constraints. -/
def numConstraints (s : VariableSystem p) : Nat := s.constraints.length

/-- The rows of the left factors. -/
def a (s : VariableSystem p) : List (SparseRow p) := s.constraints.map (s.row ·.left)

/-- The rows of the right factors. -/
def b (s : VariableSystem p) : List (SparseRow p) := s.constraints.map (s.row ·.right)

/-- The rows of the products. -/
def c (s : VariableSystem p) : List (SparseRow p) := s.constraints.map (s.row ·.product)

/-! ### Values -/

/-- The value of a variable, if it has one. -/
def value? (s : VariableSystem p) : Variable → Option (Fp p)
  | .one => some 1
  | .inst i => s.instanceValues[i]?
  | .wit i => s.witnessValues[i]?

/-- The value of a combination, if all its variables have values. -/
def eval? (s : VariableSystem p) (terms : Combination p) : Option (Fp p) := do
  return (← terms.mapM fun (x, v) ↦ (s.value? v).map (x * ·)).sum

/-- Whether a constraint holds, if all its variables have values. -/
def holds? (s : VariableSystem p) (k : VariableConstraint p) : Option Bool := do
  return (← s.eval? k.left) * (← s.eval? k.right) = (← s.eval? k.product)

/-- The position of the first constraint of a list that does not hold, if there is one. Refused when
a variable without a value is met before that. -/
def firstViolatedOf (s : VariableSystem p) : List (VariableConstraint p) → Except Error (Option Nat)
  | [] => .ok none
  | k :: ks =>
    match s.holds? k with
    | none => .error .assignmentMissing
    | some true => do return (← s.firstViolatedOf ks).map (· + 1)
    | some false => .ok (some 0)

/-- The first constraint that the values of the variables violate, if there is one. Refused for a
system that was built without values. -/
def firstViolated (s : VariableSystem p) : Except Error (Option Nat) :=
  match s.purpose with
  | .settingUp => .error .assignmentMissing
  | .proving => s.firstViolatedOf s.constraints

end VariableSystem

end SuccinctProof
