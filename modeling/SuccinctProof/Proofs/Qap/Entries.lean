import SuccinctProof.Proofs.Qap.Divisibility

/-!
# The entries of a lifted system

A column is interpolated at as many points as it has coefficients, so it can be read back: its value
at `i + 1` is the entry in row `i` (`IsLift.eval_getD`), and two columns with the same entries are
the same list of coefficients (`IsLift.columns_eq_iff`). So nothing is lost when a system is lifted
but what is not among the entries (`RankOneSystem.SameEntries`): the width of the rows beyond the
number of wires.

`ofRankOneSystem_lossless` says which systems can be lifted, what their columns are, and that two
systems have the same columns exactly when they have the same entries.
-/

open Polynomial

namespace SuccinctProof

namespace RankOneSystem

variable {p : ℕ} [Modulus p]

/-- The entry of a matrix in row `i` and column `j`. -/
def entry (rows : List (List (Fp p))) (i j : ℕ) : Fp p := (rows.getD i []).getD j 0

/-- Two systems with as many constraints and wires as each other, and the same entries for them. -/
structure SameEntries (m m' : RankOneSystem p) : Prop where
  /-- As many constraints. -/
  numConstraints_eq : m.numConstraints = m'.numConstraints
  /-- As many wires. -/
  numWires_eq : m.numWires = m'.numWires
  /-- The same left factors. -/
  left : ∀ i < m.numConstraints, ∀ j < m.numWires, entry m.a i j = entry m'.a i j
  /-- The same right factors. -/
  right : ∀ i < m.numConstraints, ∀ j < m.numWires, entry m.b i j = entry m'.b i j
  /-- The same products. -/
  product : ∀ i < m.numConstraints, ∀ j < m.numWires, entry m.c i j = entry m'.c i j

end RankOneSystem

open RankOneSystem (entry)

namespace Qap

/-! ### One matrix -/

/-- **The value of column `j` at `i + 1` is the entry in row `i`.** -/
theorem IsLift.eval_getD {p : ℕ} [Modulus p] {rows : List (List (Fp p))} {width : ℕ}
    {columns : List (Poly p)} (hl : IsLift rows width columns) {i j : ℕ} (hi : i < rows.length)
    (hj : j < width) : (columns.getD j 0).eval ((i + 1 : ℕ) : Fp p) = entry rows i j := by
  have hj' : j < columns.length := hl.length_eq ▸ hj
  have hrow : (columns.map (·.eval ((i + 1 : ℕ) : Fp p))).getD j 0 =
      (rows[i].take width).getD j 0 := congrArg (·.getD j 0) (hl.map_eval i hi)
  rw [List.getD_eq_getElem _ _ (by rwa [List.length_map]), List.getElem_map,
    List.getD_eq_getElem?_getD, List.getElem?_take_of_lt hj, ← List.getD_eq_getElem?_getD] at hrow
  rw [List.getD_eq_getElem _ _ hj', hrow, entry, List.getD_eq_getElem _ _ hi]

variable {p : ℕ} [Fact p.Prime]

/-- **Matrices of one size have the same columns exactly when they have the same entries.** -/
theorem IsLift.columns_eq_iff {rows rows' : List (List (Fp p))} {width width' n : ℕ}
    {columns columns' : List (Poly p)} (hl : IsLift rows width columns)
    (hl' : IsLift rows' width' columns') (hlt : n < p) (hn : rows.length = n)
    (hn' : rows'.length = n) (hwidth : width = width') :
    columns = columns' ↔ ∀ i < n, ∀ j < width, entry rows i j = entry rows' i j := by
  subst hwidth hn
  constructor
  · rintro rfl i hi j hj
    rw [← hl.eval_getD hi hj, hl'.eval_getD (hn' ▸ hi) hj]
  · intro h
    refine List.ext_getElem (hl.length_eq.trans hl'.length_eq.symm) fun j hj hj' ↦ ?_
    have hcolumn : j < width := hl.length_eq ▸ hj
    -- a column has as many coefficients as there are points, so its values determine it
    refine Poly.eq_of_eval_eq (Poly.nodup_nodes hlt) ?_ ?_ fun a ha ↦ ?_
    · rw [Poly.length_nodes, hl.length_of_mem _ (List.getElem_mem hj)]
    · rw [Poly.length_nodes, hl'.length_of_mem _ (List.getElem_mem hj'), hn']
    · obtain ⟨i, hi, rfl⟩ := List.getElem_of_mem ha
      rw [Poly.getElem_nodes hi, ← List.getD_eq_getElem _ 0 hj, ← List.getD_eq_getElem _ 0 hj']
      rw [Poly.length_nodes] at hi
      rw [hl.eval_getD hi hcolumn, hl'.eval_getD (hn' ▸ hi) hcolumn, h i hi j hcolumn]

/-! ### Three matrices -/

namespace Lifts

variable {q q' : Qap p} {m m' : RankOneSystem p} {k k' : ℕ}

/-- The number of columns and the number of their coefficients are the size of the system. -/
theorem size_eq (hq : q.Lifts m k) (hq' : q'.Lifts m' k') (ha : q.a = q'.a) :
    m.numConstraints = m'.numConstraints ∧ m.numWires = m'.numWires := by
  obtain ⟨f, hf⟩ := List.exists_mem_of_length_pos (hq.left.length_eq ▸ hq.wires_pos)
  constructor
  · exact (hq.left.length_of_mem f hf).symm.trans (hq'.left.length_of_mem f (ha ▸ hf))
  · rw [← hq.left.length_eq, ha, hq'.left.length_eq]

/-- **Systems have the same columns exactly when they have the same entries.** -/
theorem columns_eq_iff (hq : q.Lifts m k) (hq' : q'.Lifts m' k') (hlt : m.numConstraints < p) :
    q.a = q'.a ∧ q.b = q'.b ∧ q.c = q'.c ↔ m.SameEntries m' := by
  have hm := hq.sameHeight
  have hm' := hq'.sameHeight
  -- the matrices can be compared one by one as soon as the sizes are equal
  have hleft (hn : m'.a.length = m.a.length) (hwires : m.numWires = m'.numWires) :=
    hq.left.columns_eq_iff hq'.left hlt rfl hn hwires
  have hright (hn : m'.a.length = m.a.length) (hwires : m.numWires = m'.numWires) :=
    hq.right.columns_eq_iff hq'.right hlt hm.length_b (hm'.length_b.trans hn) hwires
  have hproduct (hn : m'.a.length = m.a.length) (hwires : m.numWires = m'.numWires) :=
    hq.product.columns_eq_iff hq'.product hlt hm.length_c (hm'.length_c.trans hn) hwires
  constructor
  · rintro ⟨ha, hb, hc⟩
    obtain ⟨hn, hwires⟩ := hq.size_eq hq' ha
    exact ⟨hn, hwires, (hleft hn.symm hwires).1 ha, (hright hn.symm hwires).1 hb,
      (hproduct hn.symm hwires).1 hc⟩
  · rintro ⟨hn, hwires, ha, hb, hc⟩
    exact ⟨(hleft hn.symm hwires).2 ha, (hright hn.symm hwires).2 hb,
      (hproduct hn.symm hwires).2 hc⟩

end Lifts

/-! ### Lifting loses nothing -/

/-- **Which systems can be lifted.** -/
theorem exists_ofRankOneSystem_iff {m : RankOneSystem p} (hm : m.SameHeight)
    (hlt : m.numConstraints < p) (hwide : ∀ row ∈ m.a ++ m.b ++ m.c, m.numWires ≤ row.length)
    {k : ℕ} : (∃ q, ofRankOneSystem m k = .ok q) ↔
      0 < m.numConstraints ∧ 0 < k ∧ k ≤ m.numWires := by
  constructor
  · rintro ⟨q, hok⟩
    have hq := lifts_of_eq_ok hm hlt hok
    exact ⟨hq.constraints_pos, hq.numPublic_pos, hq.numPublic_le⟩
  · rintro ⟨hpos, hpublic, hle⟩
    obtain ⟨q, hok, -⟩ := exists_lifts hm hpos hlt hwide hpublic hle
    exact ⟨q, hok⟩

/-- **Lifting a system loses none of its entries.** Take a system whose matrices have one height
below the modulus and rows with an entry for each wire. It can be lifted exactly when it has a
constraint and the number of public wires is at least one and at most the number of wires. Then
there is a column for each wire in each matrix, with one coefficient for each constraint and the
entries as its values, and a divisor whose degree is the number of constraints. Another system that
is lifted has the same columns exactly when it has the same entries. -/
theorem ofRankOneSystem_lossless {m : RankOneSystem p} (hm : m.SameHeight)
    (hlt : m.numConstraints < p) (hwide : ∀ row ∈ m.a ++ m.b ++ m.c, m.numWires ≤ row.length)
    (k : ℕ) :
    ((∃ q, ofRankOneSystem m k = .ok q) ↔ 0 < m.numConstraints ∧ 0 < k ∧ k ≤ m.numWires) ∧
    ∀ q, ofRankOneSystem m k = .ok q →
      q.a.length = m.numWires ∧ q.b.length = m.numWires ∧ q.c.length = m.numWires ∧
      (∀ f ∈ q.a ++ q.b ++ q.c, f.length = m.numConstraints) ∧
      (∀ i < m.numConstraints, ∀ j < m.numWires,
        (q.a.getD j 0).eval ((i + 1 : ℕ) : Fp p) = entry m.a i j ∧
        (q.b.getD j 0).eval ((i + 1 : ℕ) : Fp p) = entry m.b i j ∧
        (q.c.getD j 0).eval ((i + 1 : ℕ) : Fp p) = entry m.c i j) ∧
      q.numConstraints = m.numConstraints ∧ q.z.toPolynomial.natDegree = m.numConstraints ∧
      ∀ (m' : RankOneSystem p) (k' : ℕ) (q' : Qap p), m'.SameHeight → m'.numConstraints < p →
        ofRankOneSystem m' k' = .ok q' →
          (q.a = q'.a ∧ q.b = q'.b ∧ q.c = q'.c ↔ m.SameEntries m') := by
  refine ⟨exists_ofRankOneSystem_iff hm hlt hwide, fun q hok ↦ ?_⟩
  have hq := lifts_of_eq_ok hm hlt hok
  refine ⟨hq.left.length_eq, hq.right.length_eq, hq.product.length_eq, hq.length_of_mem,
    fun i hi j hj ↦ ⟨hq.left.eval_getD hi hj, hq.right.eval_getD (hm.length_b ▸ hi) hj,
      hq.product.eval_getD (hm.length_c ▸ hi) hj⟩, hq.numConstraints_eq, hq.natDegree_z, ?_⟩
  intro m' k' q' hm' hlt' hok'
  exact hq.columns_eq_iff (lifts_of_eq_ok hm' hlt' hok') hlt

/-- A system with another entry in each row of left factors, beyond the number of wires. -/
def widened {p : ℕ} (m : RankOneSystem p) (x : Fp p) : RankOneSystem p :=
  { m with a := m.a.map (· ++ [x]) }

theorem widened_cubeSystem_columns :
    cubeSystem.SameHeight ∧ cubeSystem.numConstraints < 101 ∧
    (∀ row ∈ cubeSystem.a ++ cubeSystem.b ++ cubeSystem.c, cubeSystem.numWires ≤ row.length) ∧
    (¬ ∃ q, ofRankOneSystem cubeSystem 5 = .ok q) ∧
    ∃ q q', ofRankOneSystem cubeSystem 2 = .ok q ∧
      ofRankOneSystem (widened cubeSystem 7) 3 = .ok q' ∧
      (q.a.getD 2 0).eval ((1 + 1 : ℕ) : Fp 101) = 1 ∧ q.a = q'.a ∧ q.b = q'.b ∧ q.c = q'.c := by
  have hm : cubeSystem.SameHeight := ⟨rfl, rfl⟩
  have hm' : (widened cubeSystem 7).SameHeight := ⟨rfl, rfl⟩
  have hlt : cubeSystem.numConstraints < 101 := by decide
  have hwide : ∀ row ∈ cubeSystem.a ++ cubeSystem.b ++ cubeSystem.c,
      cubeSystem.numWires ≤ row.length := by decide
  obtain ⟨hiff, hall⟩ := ofRankOneSystem_lossless hm hlt hwide 2
  obtain ⟨hiff', -⟩ := ofRankOneSystem_lossless hm' (by decide) (by decide) 3
  obtain ⟨q, hok⟩ := hiff.2 (by decide)
  obtain ⟨q', hok'⟩ := hiff'.2 (by decide)
  obtain ⟨-, -, -, -, hentries, -, -, hcolumns⟩ := hall q hok
  refine ⟨hm, hlt, hwide, ?_, q, q', hok, hok', ?_, ?_⟩
  · rw [(ofRankOneSystem_lossless hm hlt hwide 5).1]
    decide
  · rw [(hentries 1 (by decide) 2 (by decide)).1]
    decide
  · exact (hcolumns (widened cubeSystem 7) 3 q' hm' (by decide) hok').2
      ⟨rfl, rfl, by decide, by decide, by decide⟩

end Qap

end SuccinctProof
