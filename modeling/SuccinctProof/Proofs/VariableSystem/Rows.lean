import Mathlib.Data.List.GetD
import SuccinctProof.Proofs.Dot
import SuccinctProof.Proofs.VariableSystem.Host

/-!
# Rows over the variables of wires

The variables of wires that are allocated in wire order are known in advance (`Variable.ofWire`), and
they stand in the order of the wires. So the terms that are added for the entries of a dense row
always go to the end, and what they make of it is known for every lawful host
(`Combination.terms_combinationOf`): the entries that are not zero, each with the variable of its
wire (`Combination.ofRow`).

Such a combination is exported as the nonzero entries of the dense row (`Combination.represents_row`)
when the variable of a wire has the position of the wire for its column, and it has the dot product
for its value (`VariableSystem.eval?_ofRow`) when the variable has the value of the wire.
-/

namespace SuccinctProof

/-- The positions of the entries of a list that are chosen ascend. -/
theorem pairwise_filter_zipIdx {α : Type} (l : List α) (chosen : α × ℕ → Bool) :
    ((l.zipIdx.filter chosen).map (·.2)).Pairwise (· < ·) := by
  have hsub : ((l.zipIdx.filter chosen).map (·.2)).Sublist (List.range' 0 l.length) := by
    rw [← List.zipIdx_map_snd]
    exact List.filter_sublist.map _
  exact (List.pairwise_lt_range' ..).sublist hsub

/-! ### Variables of wires -/

/-- The variable that is allocated for a wire if the wires below `numPublic` are public. -/
def Variable.ofWire (numPublic : ℕ) : ℕ → Variable
  | 0 => .one
  | wire + 1 =>
    if wire + 1 < numPublic then .inst (wire + 1) else .wit (wire + 1 - max numPublic 1)

/-- The variables of the first wires. -/
def Variable.ofWires (numPublic count : ℕ) : List Variable :=
  (List.range count).map (.ofWire numPublic)

namespace Variable

variable {numPublic : ℕ}

theorem ofWire_of_lt {wire : ℕ} (hpos : 0 < wire) (h : wire < numPublic) :
    ofWire numPublic wire = .inst wire := by
  obtain ⟨k, rfl⟩ := Nat.exists_eq_add_one_of_ne_zero hpos.ne'
  exact if_pos h

theorem ofWire_of_le {wire : ℕ} (hpos : 0 < wire) (h : numPublic ≤ wire) :
    ofWire numPublic wire = .wit (wire - max numPublic 1) := by
  obtain ⟨k, rfl⟩ := Nat.exists_eq_add_one_of_ne_zero hpos.ne'
  exact if_neg (Nat.not_lt.2 h)

/-- **The variables stand in the order of their wires.** -/
theorem isBefore_ofWire {i j : ℕ} (h : i < j) :
    (ofWire numPublic i).isBefore (ofWire numPublic j) := by
  have hj : 0 < j := Nat.zero_lt_of_lt h
  rcases Nat.eq_zero_or_pos i with rfl | hi
  · rcases Nat.lt_or_ge j numPublic with hlt | hge
    · rw [ofWire_of_lt hj hlt]
      rfl
    · rw [ofWire_of_le hj hge]
      rfl
  · rcases Nat.lt_or_ge j numPublic with hlt | hge
    · rw [ofWire_of_lt hj hlt, ofWire_of_lt hi (h.trans hlt)]
      exact decide_eq_true h
    · rw [ofWire_of_le hj hge]
      rcases Nat.lt_or_ge i numPublic with hlt' | hge'
      · rw [ofWire_of_lt hi hlt']
        rfl
      · rw [ofWire_of_le hi hge']
        exact decide_eq_true (by omega)

theorem ofWires_succ (count : ℕ) :
    ofWires numPublic (count + 1) = ofWires numPublic count ++ [ofWire numPublic count] := by
  rw [ofWires, List.range_succ, List.map_append, List.map_singleton, ofWires]

end Variable

variable {p : ℕ} [Modulus p]

/-- The entries of a dense row that are not zero, each with the variable of its wire. -/
def Combination.ofRow (numPublic : ℕ) (row : List (Fp p)) : Combination p :=
  (row.zipIdx.filter fun t ↦ t.1 ≠ 0).map fun t ↦ (t.1, .ofWire numPublic t.2)

namespace Combination

variable {numPublic : ℕ}

theorem sorted_ofRow (row : List (Fp p)) : Sorted (ofRow numPublic row) := by
  have hascending := List.pairwise_map.1 (pairwise_filter_zipIdx row fun t ↦ t.1 ≠ 0)
  exact List.pairwise_map.2 (hascending.imp Variable.isBefore_ofWire)

/-! ### Building a combination -/

section Host

variable {S L : Type} [ConstraintHost S p L] [LawfulConstraintHost S]

open ConstraintHost

/-- **A term for a variable after all others goes to the end.** -/
theorem terms_addTerm {l : L} {x : Fp p} {v : Variable}
    (h : Sorted (terms S l ++ [(x, v)])) :
    terms S (addTerm S l x v) = terms S l ++ [(x, v)] := by
  obtain ⟨hsorted, -, hafter⟩ := List.pairwise_append.1 h
  have hlacks : Lacks v (terms S l) := fun t ht ↦
    Variable.ne_of_isBefore (hafter t ht _ List.mem_cons_self)
  refine List.Perm.eq_of_pairwise (fun t t' _ _ ht ht' ↦ absurd ht' (Variable.isBefore_asymm ht))
    (LawfulConstraintHost.sorted_addTerm l x v hlacks hsorted) h ?_
  exact (LawfulConstraintHost.perm_addTerm l x v hlacks).trans
    (List.perm_append_singleton _ _).symm

/-- Terms that are added in the order of their variables stand in that order. -/
theorem terms_foldl_addTerm {ts : Combination p} {l : L} (h : Sorted (terms S l ++ ts)) :
    terms S (ts.foldl (fun acc (t : Fp p × Variable) ↦ addTerm S acc t.1 t.2) l) =
      terms S l ++ ts := by
  induction ts generalizing l with
  | nil => exact (List.append_nil _).symm
  | cons t ts ih =>
    rw [List.append_cons] at h
    have hstep := terms_addTerm (List.pairwise_append.1 h).1
    rw [← hstep] at h
    rw [List.foldl_cons, ih h, hstep, ← List.append_cons]

/-- **The combination of a dense row has the nonzero entries for its terms.** -/
theorem terms_combinationOf {row : List (Fp p)} {count : ℕ} (h : row.length = count) :
    terms S (combinationOf S row (Variable.ofWires numPublic count)) = ofRow numPublic row := by
  have hpairs : ((row.zip (Variable.ofWires numPublic count)).filter fun t ↦ t.1 ≠ 0) =
      ofRow numPublic row := by
    rw [← h, Variable.ofWires, List.zip_map_right, List.range_eq_range',
      ← List.zipIdx_eq_zip_range', List.filter_map]
    rfl
  have hnil : terms S (noTerms S) = [] := LawfulConstraintHost.terms_noTerms
  have hsorted : Sorted (terms S (noTerms S) ++ ofRow numPublic row) := by
    rw [hnil]
    exact sorted_ofRow row
  rw [combinationOf, hpairs, terms_foldl_addTerm hsorted, hnil, List.nil_append]

end Host

end Combination

/-! ### Exporting a combination -/

/-- The entries of a dense row that are not zero, each once, by ascending columns. -/
structure SparseRow.Represents (sparse : SparseRow p) (dense : List (Fp p)) : Prop where
  /-- The columns ascend. -/
  ascending : (sparse.map (·.1)).Pairwise (· < ·)
  /-- The entries are those of the dense row, without the zeros. -/
  mem_iff : ∀ column x, (column, x) ∈ sparse ↔ dense[column]? = some x ∧ x ≠ 0

namespace SparseRow

/-- **Only zeros are left out.** -/
theorem represents_zipIdx (dense : List (Fp p)) :
    Represents ((dense.zipIdx.filter fun t ↦ t.1 ≠ 0).map fun t ↦ (t.2, t.1)) dense where
  ascending := by
    rw [List.map_map]
    exact pairwise_filter_zipIdx dense _
  mem_iff column x := by
    simp only [List.mem_map, List.mem_filter, Prod.exists, Prod.mk.injEq,
      List.mk_mem_zipIdx_iff_getElem?, decide_eq_true_eq]
    constructor
    · rintro ⟨_, _, h, rfl, rfl⟩
      exact h
    · intro h
      exact ⟨x, column, h, rfl, rfl⟩

end SparseRow

/-- **A dense row is exported with its nonzero entries in place**, if the column of a wire's variable
is the position of the wire. -/
theorem Combination.represents_row {numPublic : ℕ} {column : Variable → ℕ} {row : List (Fp p)}
    (h : ∀ i < row.length, column (.ofWire numPublic i) = i) :
    ((ofRow numPublic row).row column).Represents row := by
  have hrow : (ofRow numPublic row).row column =
      (row.zipIdx.filter fun t ↦ t.1 ≠ 0).map fun t ↦ (t.2, t.1) := by
    rw [Combination.row, ofRow, List.filter_map, List.map_map]
    have hfilter : ((row.zipIdx.filter fun t ↦ t.1 ≠ 0).filter
        ((fun t : Fp p × Variable ↦ decide (t.1 ≠ 0)) ∘ fun t ↦ (t.1, .ofWire numPublic t.2))) =
        row.zipIdx.filter fun t ↦ t.1 ≠ 0 := by
      rw [List.filter_filter]
      exact List.filter_congr fun t _ ↦ Bool.and_self _
    rw [hfilter]
    refine List.map_congr_left fun t ht ↦ ?_
    obtain ⟨x, i⟩ := t
    have hi : i < row.length := (List.snd_lt_of_mem_zipIdx (List.mem_of_mem_filter ht))
    exact Prod.ext (h i hi) rfl
  rw [hrow]
  exact SparseRow.represents_zipIdx row

/-! ### Evaluating a combination -/

/-- The entries from column `k` on, against the values from there on. -/
theorem sum_zipIdx_mul (row values : List (Fp p)) (k : ℕ) :
    (((row.zipIdx k).filter fun t ↦ t.1 ≠ 0).map fun t ↦ t.1 * values.getD t.2 0).sum =
      dot row (values.drop k) := by
  induction row generalizing k with
  | nil => rfl
  | cons x row ih =>
    have hcons : dot (x :: row) (values.drop k) =
        x * values.getD k 0 + dot row (values.drop (k + 1)) := by
      rcases Nat.lt_or_ge k values.length with hlt | hge
      · rw [List.drop_eq_getElem_cons hlt, dot_cons, List.getD_eq_getElem _ _ hlt]
      · rw [List.drop_of_length_le hge, List.drop_of_length_le (by omega), dot_nil_right,
          dot_nil_right, List.getD_eq_default _ _ hge, mul_zero, add_zero]
    rw [hcons, ← ih, List.zipIdx_cons]
    by_cases hx : x = 0
    · rw [List.filter_cons_of_neg (by simpa using hx), hx, zero_mul, zero_add]
    · rw [List.filter_cons_of_pos (by simpa using hx), List.map_cons, List.sum_cons]

namespace VariableSystem

variable {s : VariableSystem p}

/-- A combination has a value when its variables have values. -/
theorem eval?_of_isSome {terms : Combination p} (h : ∀ t ∈ terms, (s.value? t.2).isSome) :
    s.eval? terms = some (terms.map fun t ↦ t.1 * (s.value? t.2).getD 0).sum := by
  have hvalues : (terms.mapM fun t ↦ (s.value? t.2).map (t.1 * ·)) =
      some (terms.map fun t ↦ t.1 * (s.value? t.2).getD 0) := by
    induction terms with
    | nil => rfl
    | cons t terms ih =>
      obtain ⟨ht, hterms⟩ := List.forall_mem_cons.1 h
      obtain ⟨x, hx⟩ := Option.isSome_iff_exists.1 ht
      rw [List.mapM_cons, ih hterms, List.map_cons, hx]
      rfl
  rw [eval?, hvalues]
  rfl

/-- **The value of the combination of a dense row is a dot product**, if the variables of the wires
have the values of the wires. -/
theorem eval?_ofRow {numPublic : ℕ} {row values : List (Fp p)} (hlength : row.length = values.length)
    (h : ∀ i < values.length, s.value? (.ofWire numPublic i) = values[i]?) :
    s.eval? (.ofRow numPublic row) = some (dot row values) := by
  have hvalue : ∀ t ∈ row.zipIdx.filter fun t ↦ t.1 ≠ 0,
      s.value? (.ofWire numPublic t.2) = values[t.2]? := fun t ht ↦
    h t.2 (hlength ▸ List.snd_lt_of_mem_zipIdx (List.mem_of_mem_filter ht))
  have hsome : ∀ t ∈ Combination.ofRow numPublic row, (s.value? t.2).isSome := by
    intro t ht
    obtain ⟨u, hu, rfl⟩ := List.mem_map.1 ht
    have hlt : u.2 < values.length :=
      hlength ▸ List.snd_lt_of_mem_zipIdx (List.mem_of_mem_filter hu)
    rw [hvalue u hu, List.getElem?_eq_getElem hlt]
    rfl
  rw [eval?_of_isSome hsome, Combination.ofRow, List.map_map, ← List.drop_zero (l := values),
    ← sum_zipIdx_mul row values 0]
  congr 2
  refine List.map_congr_left fun t ht ↦ ?_
  rw [Function.comp_apply, hvalue t ht, List.getD_eq_getElem?_getD]

end VariableSystem

end SuccinctProof
