import SuccinctProof.VariableSystem.Replay

/-!
# Systems that are what they hold

The plainest host of constraint systems: a system is what it holds, and a combination is the list of
its terms, kept in the order of their variables.
-/

namespace SuccinctProof

variable {p : Nat} [Modulus p]

/-- A combination and one more term, at the place of its variable. If the variable has a term
already, the coefficients are added. -/
def Combination.insert (x : Fp p) (v : Variable) : Combination p → Combination p
  | [] => [(x, v)]
  | (y, u) :: terms =>
    if u.isBefore v then (y, u) :: insert x v terms
    else if u = v then (y + x, u) :: terms
    else (x, v) :: (y, u) :: terms

namespace VariableSystem

instance : ConstraintHost (VariableSystem p) p (Combination p) where
  start := empty
  newInstance := newInstance
  newWitness := newWitness
  noTerms := []
  addTerm terms x v := terms.insert x v
  enforce left right product s := .ok (s.enforce ⟨left, right, product⟩)
  terms := id
  contents := id
  column := column
  leftRows := a
  rightRows := b
  productRows := c
  firstViolated := firstViolated

/-- Replays a netlist into a system that is what it holds. -/
def ofNetlist (n : Netlist) (purpose : Purpose) (witness : Option (List (Fp p))) :
    Except Error (VariableSystem p) := do
  (← Replay.new n witness).build purpose

end VariableSystem

end SuccinctProof
