import SuccinctProof.Proofs.Poly.Interpolation
import SuccinctProof.Proofs.RankOneSystem
import SuccinctProof.Qap

/-!
# Lifting a constraint system

The columns of a matrix become polynomials that take the entries of row `i` as their values at
`i + 1`. `IsLift` says this of one matrix, and `Qap.Lifts` of a whole program; both also fix the
number and the lengths of the polynomials.

`Qap.exists_lifts` says that every system whose matrices have the same height below the modulus, and
rows that are wide enough, has a lift for every sensible number of public wires.
-/

open Polynomial

namespace SuccinctProof.Qap

/-- Polynomials for the first `width` columns of a matrix given by its rows. -/
structure IsLift {p : ℕ} [Modulus p] (rows : List (List (Fp p))) (width : ℕ)
    (columns : List (Poly p)) : Prop where
  /-- There is one polynomial for each column. -/
  length_eq : columns.length = width
  /-- Every polynomial has one coefficient for each row. -/
  length_of_mem : ∀ f ∈ columns, f.length = rows.length
  /-- The values at `i + 1` are the entries of row `i`. -/
  map_eval : ∀ i, (hi : i < rows.length) →
    columns.map (·.eval ((i + 1 : ℕ) : Fp p)) = rows[i].take width

/-- A program whose polynomials are those of a constraint system. -/
structure Lifts {p : ℕ} [Modulus p] (q : Qap p) (m : RankOneSystem p) (numPublic : ℕ) :
    Prop where
  /-- The matrices have the same height. -/
  sameHeight : m.SameHeight
  /-- There is a constraint. -/
  constraints_pos : 0 < m.numConstraints
  /-- The columns of the left factors. -/
  left : IsLift m.a m.numWires q.a
  /-- The columns of the right factors. -/
  right : IsLift m.b m.numWires q.b
  /-- The columns of the products. -/
  product : IsLift m.c m.numWires q.c
  /-- The divisor vanishes at the points of the constraints. -/
  z_eq : q.z = Poly.vanishing m.numConstraints
  /-- The number of public wires. -/
  numPublic_eq : q.numPublic = numPublic
  /-- There is a public wire. -/
  numPublic_pos : 0 < numPublic
  /-- The public wires are among the wires. -/
  numPublic_le : numPublic ≤ m.numWires

section Prime

variable {p : ℕ} [Fact p.Prime]

/-- **Rows that are wide enough can be lifted.** -/
theorem exists_isLift {rows : List (List (Fp p))} {width : ℕ} (hrows : rows.length < p)
    (hwidth : ∀ row ∈ rows, width ≤ row.length) :
    ∃ columns, liftColumns rows width = .ok columns ∧ IsLift rows width columns := by
  obtain ⟨basis, hbasis, hb⟩ := Poly.exists_lagrangeBasis (Poly.nodup_nodes hrows)
  refine ⟨(List.range width).map fun j ↦ Poly.combine (rows.map (·.getD j 0)) basis, ?_, ?_, ?_, ?_⟩
  · rw [liftColumns, hbasis]
    rfl
  · rw [List.length_map, List.length_range]
  · intro f hf
    obtain ⟨j, -, rfl⟩ := List.mem_map.1 hf
    rw [hb.length_combine, Poly.length_nodes]
  · intro i hi
    have hnode : i < (Poly.nodes rows.length : List (Fp p)).length := by
      rwa [Poly.length_nodes]
    have hrow := hwidth _ (List.getElem_mem hi)
    rw [← Poly.getElem_nodes hnode, List.map_map]
    -- entry `j` of the row is what column `j` was interpolated from
    refine List.ext_getElem (by simpa using hrow) fun j hj hj' ↦ ?_
    rw [List.length_map, List.length_range] at hj
    rw [List.getElem_map, List.getElem_range, Function.comp_apply,
      hb.eval_combine hnode (by rwa [List.length_map]), List.getElem_map, List.getElem_take,
      List.getD_eq_getElem]

/-- **A system of one height below the modulus is lifted**, unless a row is too narrow or the number
of public wires is out of range. -/
theorem exists_lifts {m : RankOneSystem p} {numPublic : ℕ} (hm : m.SameHeight)
    (hpos : 0 < m.numConstraints) (hlt : m.numConstraints < p)
    (hwide : ∀ row ∈ m.a ++ m.b ++ m.c, m.numWires ≤ row.length) (hpublic : 0 < numPublic)
    (hle : numPublic ≤ m.numWires) :
    ∃ q, ofRankOneSystem m numPublic = .ok q ∧ q.Lifts m numPublic := by
  have hlt' : m.a.length < p := hlt
  have hwide' : (m.a ++ m.b ++ m.c).any (·.length < m.numWires) = false := by
    rw [List.any_eq_false]
    intro row hrow
    simpa using hwide row hrow
  simp only [List.mem_append] at hwide
  obtain ⟨a, ha, hla⟩ := exists_isLift hlt' fun row h ↦ hwide row (.inl (.inl h))
  obtain ⟨b, hb, hlb⟩ := exists_isLift (hm.length_b ▸ hlt') fun row h ↦ hwide row (.inl (.inr h))
  obtain ⟨c, hc, hlc⟩ := exists_isLift (hm.length_c ▸ hlt') fun row h ↦ hwide row (.inr h)
  refine ⟨⟨a, b, c, Poly.vanishing m.numConstraints, numPublic⟩, ?_,
    ⟨hm, hpos, hla, hlb, hlc, rfl, rfl, hpublic, hle⟩⟩
  rw [ofRankOneSystem, if_neg hpos.ne', if_neg (by omega), hwide', ha, hb, hc]
  rfl

/-- **Nothing else is lifted**: a program that is accepted is a lift. -/
theorem lifts_of_eq_ok {m : RankOneSystem p} {numPublic : ℕ} {q : Qap p} (hm : m.SameHeight)
    (hlt : m.numConstraints < p) (h : ofRankOneSystem m numPublic = .ok q) :
    q.Lifts m numPublic := by
  have hpos : m.numConstraints ≠ 0 := by
    intro h0
    rw [ofRankOneSystem, if_pos h0] at h
    exact nomatch h
  have hpublic : ¬ (numPublic = 0 ∨ m.numWires < numPublic) := by
    intro h0
    rw [ofRankOneSystem, if_neg hpos, if_pos h0] at h
    exact nomatch h
  have hwide : ∀ row ∈ m.a ++ m.b ++ m.c, m.numWires ≤ row.length := by
    by_contra h0
    have hany : (m.a ++ m.b ++ m.c).any (·.length < m.numWires) = true := by
      rw [List.any_eq_true]
      push Not at h0
      simpa using h0
    rw [ofRankOneSystem, if_neg hpos, if_neg hpublic, hany] at h
    exact nomatch h
  have hpublic_pos : 0 < numPublic := by omega
  have hle : numPublic ≤ m.numWires := by omega
  obtain ⟨q', hq', hlifts⟩ :=
    exists_lifts hm (Nat.pos_of_ne_zero hpos) hlt hwide hpublic_pos hle
  exact Except.ok.inj (hq'.symm.trans h) ▸ hlifts

end Prime

end SuccinctProof.Qap
