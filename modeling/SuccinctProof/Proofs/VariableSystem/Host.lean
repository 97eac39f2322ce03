import Mathlib.Data.List.Perm.Basic
import SuccinctProof.VariableSystem

/-!
# Lawful hosts

What is expected of a host of constraint systems (`LawfulConstraintHost`). Building is described by
what a system holds: a new variable is numbered after those of its kind, its value is put after
theirs, and a new constraint is put after the others. Three things are computed, and have a law each:
combinations keep their terms in the order of the variables, the columns of the exported matrices
number the instance variables before the witness variables, and the first violated constraint is
found from the values of the variables.

Of `ConstraintHost.addTerm` only terms for new variables are described. What happens to a variable
that has a term already is left open.

`VariableSystem` itself is lawful.
-/

namespace SuccinctProof

namespace Variable

variable {u v w : Variable}

theorem isBefore_trans (huv : u.isBefore v) (hvw : v.isBefore w) : u.isBefore w := by
  cases u <;> cases v <;> cases w <;> simp only [isBefore, decide_eq_true_eq] at * <;> grind

theorem isBefore_asymm (huv : u.isBefore v) : ¬ v.isBefore u := by
  cases u <;> cases v <;> simp only [isBefore, decide_eq_true_eq] at * <;> grind

theorem ne_of_isBefore (huv : u.isBefore v) : u ≠ v := by
  rintro rfl
  exact isBefore_asymm huv huv

/-- Of two variables one is before the other. -/
theorem isBefore_or_isBefore (huv : u ≠ v) : u.isBefore v ∨ v.isBefore u := by
  cases u <;> cases v <;> simp only [isBefore, decide_eq_true_eq, ne_eq, inst.injEq, wit.injEq] at *
    <;> grind

end Variable

variable {p : ℕ}

namespace Combination

/-- The terms stand in the order of their variables, one for each. -/
def Sorted (terms : Combination p) : Prop := terms.Pairwise fun t t' ↦ t.2.isBefore t'.2

/-- There is no term for a variable. -/
def Lacks (v : Variable) (terms : Combination p) : Prop := ∀ t ∈ terms, t.2 ≠ v

end Combination

open ConstraintHost in
/-- What is expected of a host. -/
class LawfulConstraintHost (S : Type) {L : Type} [Modulus p] [ConstraintHost S p L] : Prop where
  /-- A new system has the constant one and no constraints. -/
  contents_start : ∀ purpose, contents (start purpose : S) = .empty purpose
  /-- An instance variable is numbered after the others, and its value is put after theirs. -/
  newInstance_eq : ∀ (value : Except Error (Fp p)) (s : S),
    (newInstance value s).map (fun vs ↦ (vs.1, contents vs.2)) = (contents s).newInstance value
  /-- A witness variable is numbered after the others, and its value is put after theirs. -/
  newWitness_eq : ∀ (value : Except Error (Fp p)) (s : S),
    (newWitness value s).map (fun vs ↦ (vs.1, contents vs.2)) = (contents s).newWitness value
  /-- A constraint is put after the others. -/
  enforce_eq : ∀ (left right product : L) (s : S),
    (enforce left right product s).map contents =
      .ok ((contents s).enforce ⟨terms S left, terms S right, terms S product⟩)
  /-- The combination without terms has none. -/
  terms_noTerms : terms S (noTerms S) = []
  /-- A term for a new variable is added to the others. -/
  perm_addTerm : ∀ (l : L) (x : Fp p) (v : Variable), Combination.Lacks v (terms S l) →
    (terms S (addTerm S l x v)).Perm ((x, v) :: terms S l)
  /-- A term for a new variable is put in its place. -/
  sorted_addTerm : ∀ (l : L) (x : Fp p) (v : Variable), Combination.Lacks v (terms S l) →
    Combination.Sorted (terms S l) → Combination.Sorted (terms S (addTerm S l x v))
  /-- The constant one has the first column. -/
  column_one : ∀ s : S, column s .one = 0
  /-- Instance variables have the columns after it. -/
  column_inst : ∀ (s : S) (i : ℕ), column s (.inst i) = i
  /-- Witness variables have the columns after all instance variables. -/
  column_wit : ∀ (s : S) (i : ℕ), column s (.wit i) = (contents s).numInstance + i
  /-- The left factors are exported with their nonzero coefficients. -/
  leftRows_eq : ∀ s : S, leftRows s = (contents s).constraints.map (·.left.row (column s))
  /-- And so are the right factors. -/
  rightRows_eq : ∀ s : S, rightRows s = (contents s).constraints.map (·.right.row (column s))
  /-- And so are the products. -/
  productRows_eq : ∀ s : S, productRows s = (contents s).constraints.map (·.product.row (column s))
  /-- The constraints are checked in their order, on the values of the variables. -/
  firstViolated_eq : ∀ s : S, firstViolated s = (contents s).firstViolated

/-- The columns of a host are those of what its system holds. -/
theorem LawfulConstraintHost.column_eq {S L : Type} [Modulus p] [ConstraintHost S p L]
    [LawfulConstraintHost S] (s : S) :
    ConstraintHost.column s = (ConstraintHost.contents s).column := by
  funext v
  cases v with
  | one => exact column_one s
  | inst i => exact column_inst s i
  | wit i => exact column_wit s i

/-! ### Systems that are what they hold -/

section Insert

variable [Modulus p] {x : Fp p} {v : Variable} {terms : Combination p}

namespace Combination

theorem perm_insert (h : Lacks v terms) : (terms.insert x v).Perm ((x, v) :: terms) := by
  induction terms with
  | nil => exact .refl _
  | cons t terms ih =>
    obtain ⟨hne, hlacks⟩ := List.forall_mem_cons.1 h
    rw [insert]
    split
    · exact ((ih hlacks).cons t).trans (.swap ..)
    · exact .refl _

theorem sorted_insert (h : Lacks v terms) (hsorted : Sorted terms) :
    Sorted (terms.insert x v) := by
  induction terms with
  | nil => exact List.pairwise_singleton _ _
  | cons t terms ih =>
    obtain ⟨hne, hlacks⟩ := List.forall_mem_cons.1 h
    obtain ⟨hhead, htail⟩ := List.pairwise_cons.1 hsorted
    rw [insert]
    split
    · next hbefore =>
      refine List.pairwise_cons.2 ⟨fun t' ht' ↦ ?_, ih hlacks htail⟩
      rcases List.mem_cons.1 ((perm_insert hlacks).mem_iff.1 ht') with rfl | hmem
      · exact hbefore
      · exact hhead t' hmem
    · next hbefore =>
      -- the variable is before the first one, and so before all of them
      have hfirst : v.isBefore t.2 := (Variable.isBefore_or_isBefore hne).resolve_left hbefore
      refine List.pairwise_cons.2 ⟨fun t' ht' ↦ ?_, hsorted⟩
      rcases List.mem_cons.1 ht' with rfl | hmem
      · exact hfirst
      · exact Variable.isBefore_trans hfirst (hhead t' hmem)

end Combination

end Insert

namespace VariableSystem

instance [Modulus p] : LawfulConstraintHost (VariableSystem p) where
  contents_start _ := rfl
  newInstance_eq value s := by
    show (s.newInstance value).map id = s.newInstance value
    rw [Except.map_id, id]
  newWitness_eq value s := by
    show (s.newWitness value).map id = s.newWitness value
    rw [Except.map_id, id]
  enforce_eq _ _ _ _ := rfl
  terms_noTerms := rfl
  perm_addTerm _ _ _ h := Combination.perm_insert h
  sorted_addTerm _ _ _ h hsorted := Combination.sorted_insert h hsorted
  column_one _ := rfl
  column_inst _ _ := rfl
  column_wit _ _ := rfl
  leftRows_eq _ := rfl
  rightRows_eq _ := rfl
  productRows_eq _ := rfl
  firstViolated_eq _ := rfl

end VariableSystem

end SuccinctProof
