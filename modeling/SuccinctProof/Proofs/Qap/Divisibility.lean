import SuccinctProof.Proofs.Poly.Division
import SuccinctProof.Proofs.Qap.Lift

/-!
# Divisibility is satisfaction

At the point of a constraint the combinations of the columns with a vector are the dot products of
the vector with the rows (`IsLift.eval_combine`). So `A * B - C` vanishes at all points exactly when
all constraints hold, and the vanishing polynomial divides exactly the polynomials that vanish
there.

`quotient_eq_ok_iff_satisfied` is the equivalence with everything that a prover relies on: the
division is never refused for another reason, and its result has one coefficient less than there are
constraints. Programs that are not lifted from a system have this much: a quotient times the divisor
is `A * B - C` at every point (`eval_quotient_mul`).
-/

open Polynomial

namespace SuccinctProof.Qap

section Columns

variable {p : ℕ} [Modulus p] {rows : List (List (Fp p))} {width : ℕ} {columns : List (Poly p)}

/-- **At the point of a row, the columns combine to the dot product with the row.** -/
theorem IsLift.eval_combine (hl : IsLift rows width columns) {w : List (Fp p)}
    (hw : w.length = width) {i : ℕ} (hi : i < rows.length) :
    (Poly.combine w columns).eval ((i + 1 : ℕ) : Fp p) = dot (rows.getD i []) w := by
  rw [Poly.eval_combine, hl.map_eval i hi, dot_comm, dot_take_left _ hw.le,
    List.getD_eq_getElem _ _ hi]

/-- A combination of columns keeps one coefficient for each row. -/
theorem IsLift.length_combine (hl : IsLift rows width columns) (hpos : 0 < width)
    (w : List (Fp p)) : (Poly.combine w columns).length = rows.length := by
  rw [Poly.length_combine]
  refine Poly.maxLength_eq ?_ hl.length_of_mem
  rw [← List.length_pos_iff, hl.length_eq]
  exact hpos

end Columns

/-- Only a vector with one value for each wire has a quotient. -/
theorem length_of_quotient {p : ℕ} [Modulus p] {q : Qap p} {w : List (Fp p)} {h : Poly p}
    (hquotient : q.quotient w = .ok h) : w.length = q.numWires := by
  by_contra hw
  rw [quotient, if_pos hw] at hquotient
  exact nomatch hquotient

variable {p : ℕ} [Fact p.Prime]

/-- **A quotient times the divisor is `A * B - C`**, at every point and for every program. -/
theorem eval_quotient_mul {q : Qap p} {w : List (Fp p)} {h : Poly p}
    (hquotient : q.quotient w = .ok h) (x : Fp p) :
    h.eval x * q.z.eval x =
      (q.left w).eval x * (q.right w).eval x - (q.product w).eval x := by
  rw [quotient, if_neg (not_not.2 (length_of_quotient hquotient))] at hquotient
  have hmul := congrArg (Polynomial.eval x) (Poly.mul_eq_of_exactDiv hquotient)
  rwa [Polynomial.eval_mul, Poly.eval_toPolynomial, Poly.eval_toPolynomial, Poly.eval_toPolynomial,
    Poly.eval_sub, Poly.eval_mul] at hmul

namespace Lifts

variable {q : Qap p} {m : RankOneSystem p} {numPublic : ℕ} {w : List (Fp p)}

theorem wires_pos (hq : q.Lifts m numPublic) : 0 < m.numWires :=
  hq.numPublic_pos.trans_le hq.numPublic_le

theorem numWires_eq (hq : q.Lifts m numPublic) : q.numWires = m.numWires :=
  hq.left.length_eq

/-- Every column has one coefficient for each constraint. -/
theorem length_of_mem (hq : q.Lifts m numPublic) :
    ∀ f ∈ q.a ++ q.b ++ q.c, f.length = m.numConstraints := by
  simp only [List.forall_mem_append]
  exact ⟨⟨hq.left.length_of_mem,
    fun f hf ↦ (hq.right.length_of_mem f hf).trans hq.sameHeight.length_b⟩,
    fun f hf ↦ (hq.product.length_of_mem f hf).trans hq.sameHeight.length_c⟩

/-- One coefficient of the divisor more than there are constraints. -/
theorem length_z (hq : q.Lifts m numPublic) : q.z.length = m.numConstraints + 1 := by
  rw [hq.z_eq, Poly.length_vanishing]

theorem numConstraints_eq (hq : q.Lifts m numPublic) : q.numConstraints = m.numConstraints := by
  rw [numConstraints, Poly.degree, hq.length_z, Nat.add_sub_cancel]

theorem length_left (hq : q.Lifts m numPublic) (w : List (Fp p)) :
    (q.left w).length = m.numConstraints :=
  hq.left.length_combine hq.wires_pos w

theorem length_right (hq : q.Lifts m numPublic) (w : List (Fp p)) :
    (q.right w).length = m.numConstraints :=
  (hq.right.length_combine hq.wires_pos w).trans hq.sameHeight.length_b

theorem length_product (hq : q.Lifts m numPublic) (w : List (Fp p)) :
    (q.product w).length = m.numConstraints :=
  (hq.product.length_combine hq.wires_pos w).trans hq.sameHeight.length_c

/-- The dividend is not trimmed: its length depends on the number of constraints alone. -/
theorem length_dividend (hq : q.Lifts m numPublic) (w : List (Fp p)) :
    (q.left w * q.right w - q.product w).length = 2 * m.numConstraints - 1 := by
  have hpos := hq.constraints_pos
  have hl := hq.length_left w
  have hr := hq.length_right w
  rw [Poly.length_sub, Poly.length_mul (by omega) (by omega), hq.length_product, hl, hr]
  omega

/-- **The dividend vanishes at the point of a constraint exactly when the constraint holds.** -/
theorem eval_dividend_eq_zero_iff (hq : q.Lifts m numPublic) (hw : w.length = m.numWires) {i : ℕ}
    (hi : i < m.numConstraints) :
    (q.left w * q.right w - q.product w).eval ((i + 1 : ℕ) : Fp p) = 0 ↔
      RankOneSystem.RowHolds w m.a m.b m.c i := by
  rw [Poly.eval_sub, Poly.eval_mul, Qap.left, Qap.right, Qap.product, hq.left.eval_combine hw hi,
    hq.right.eval_combine hw (hq.sameHeight.length_b ▸ hi),
    hq.product.eval_combine hw (hq.sameHeight.length_c ▸ hi), sub_eq_zero]
  rfl

/-- The divisor vanishes at the point of a constraint. -/
theorem eval_z_eq_zero (hq : q.Lifts m numPublic) {i : ℕ} (hi : i < m.numConstraints) :
    q.z.eval ((i + 1 : ℕ) : Fp p) = 0 := by
  rw [hq.z_eq, Poly.eval_vanishing_eq_zero_iff]
  exact ⟨i + 1, ⟨Nat.le_add_left 1 i, hi⟩, rfl⟩

/-- **All constraints hold exactly when the vanishing polynomial divides.** -/
theorem dvd_dividend_iff (hq : q.Lifts m numPublic) (hlt : m.numConstraints < p)
    (hw : w.length = m.numWires) :
    q.z.toPolynomial ∣ (q.left w * q.right w - q.product w).toPolynomial ↔
      m.firstViolated w = .ok none := by
  rw [hq.z_eq, Poly.toPolynomial_vanishing_dvd_iff hlt,
    RankOneSystem.firstViolated_eq_none_iff hq.sameHeight hw]
  constructor
  · intro h i hi
    exact (hq.eval_dividend_eq_zero_iff hw hi).1 (h (i + 1) (Nat.le_add_left 1 i) hi)
  · intro h i hpos hi
    obtain ⟨j, rfl⟩ := Nat.exists_eq_add_of_le' hpos
    exact (hq.eval_dividend_eq_zero_iff hw hi).2 (h j hi)

theorem toPolynomial_z_ne_zero (hq : q.Lifts m numPublic) : q.z.toPolynomial ≠ 0 :=
  hq.z_eq ▸ Poly.toPolynomial_vanishing_ne_zero _

theorem natDegree_z (hq : q.Lifts m numPublic) : q.z.toPolynomial.natDegree = m.numConstraints := by
  rw [hq.z_eq, Poly.natDegree_vanishing]

/-- A vector that satisfies the system has a quotient, of the length that the keys provide for. -/
theorem quotient_of_satisfied (hq : q.Lifts m numPublic) (hlt : m.numConstraints < p)
    (hw : w.length = m.numWires) (h : m.firstViolated w = .ok none) :
    ∃ f, q.quotient w = .ok f ∧ f.length = m.numConstraints - 1 ∧
      (f * q.z).toPolynomial = (q.left w * q.right w - q.product w).toPolynomial := by
  obtain ⟨f, hf, hmul, hlen⟩ :=
    Poly.exactDiv_of_dvd hq.toPolynomial_z_ne_zero ((hq.dvd_dividend_iff hlt hw).2 h)
  refine ⟨f, ?_, ?_, ?_⟩
  · rw [quotient, if_neg (not_not.2 (hw.trans hq.numWires_eq.symm)), hf]
  · have hpos := hq.constraints_pos
    rw [hlen, hq.length_dividend, hq.natDegree_z]
    omega
  · rw [Poly.toPolynomial_mul, hmul]

/-- A vector that violates a constraint has none. -/
theorem quotient_of_violated (hq : q.Lifts m numPublic) (hlt : m.numConstraints < p)
    (hw : w.length = m.numWires) (h : m.firstViolated w ≠ .ok none) :
    q.quotient w = .error .notDivisible := by
  rw [quotient, if_neg (not_not.2 (hw.trans hq.numWires_eq.symm))]
  exact Poly.exactDiv_of_not_dvd hq.toPolynomial_z_ne_zero fun hdvd ↦
    h ((hq.dvd_dividend_iff hlt hw).1 hdvd)

end Lifts

/-! ### The equivalence -/

/-- **Division succeeds exactly on the vectors that satisfy every constraint**, and is refused as
not divisible on all others. The quotient has one coefficient less than there are constraints, and
times the vanishing polynomial it is `A * B - C`. -/
theorem quotient_eq_ok_iff_satisfied {m : RankOneSystem p} {numPublic : ℕ} (hm : m.SameHeight)
    (hpos : 0 < m.numConstraints) (hlt : m.numConstraints < p)
    (hwide : ∀ row ∈ m.a ++ m.b ++ m.c, m.numWires ≤ row.length) (hpublic : 0 < numPublic)
    (hle : numPublic ≤ m.numWires) :
    ∃ q, ofRankOneSystem m numPublic = .ok q ∧ ∀ w : List (Fp p), w.length = m.numWires →
      ((∃ h, q.quotient w = .ok h) ↔ m.firstViolated w = .ok none) ∧
      (m.firstViolated w ≠ .ok none → q.quotient w = .error .notDivisible) ∧
      ∀ h, q.quotient w = .ok h → h.length = m.numConstraints - 1 ∧
        (h * q.z).toPolynomial = (q.left w * q.right w - q.product w).toPolynomial := by
  obtain ⟨q, hok, hq⟩ := exists_lifts hm hpos hlt hwide hpublic hle
  refine ⟨q, hok, fun w hw ↦ ?_⟩
  have hviolated := hq.quotient_of_violated hlt hw
  by_cases hsat : m.firstViolated w = .ok none
  · obtain ⟨f, hf, hlen, hmul⟩ := hq.quotient_of_satisfied hlt hw hsat
    refine ⟨⟨fun _ ↦ hsat, fun _ ↦ ⟨f, hf⟩⟩, hviolated, fun h hh ↦ ?_⟩
    cases Except.ok.inj (hf.symm.trans hh)
    exact ⟨hlen, hmul⟩
  · have hno : ∀ h, q.quotient w ≠ .ok h := fun h hh ↦ nomatch (hviolated hsat).symm.trans hh
    exact ⟨⟨fun ⟨h, hh⟩ ↦ absurd hh (hno h), fun h ↦ absurd h hsat⟩, hviolated,
      fun h hh ↦ absurd hh (hno h)⟩

/-- The cube of a public wire: the second wire, its square, and its cube. -/
def cubeSystem : RankOneSystem 101 where
  a := [[0, 1, 0, 0], [0, 0, 1, 0]]
  b := [[0, 1, 0, 0], [0, 1, 0, 0]]
  c := [[0, 0, 1, 0], [0, 0, 0, 1]]
  numWires := 4

theorem cubeSystem_quotient : ∃ q, ofRankOneSystem cubeSystem 2 = .ok q ∧
    (∃ h, q.quotient [1, 3, 9, 27] = .ok h ∧ h.length = 1 ∧ (h * q.z).toPolynomial =
      (q.left [1, 3, 9, 27] * q.right [1, 3, 9, 27] - q.product [1, 3, 9, 27]).toPolynomial) ∧
    q.quotient [1, 3, 9, 28] = .error .notDivisible := by
  obtain ⟨q, hok, hall⟩ := quotient_eq_ok_iff_satisfied (m := cubeSystem) ⟨rfl, rfl⟩ (by decide)
    (by decide) (by decide) (by decide : 0 < 2) (by decide)
  obtain ⟨hiff, -, hquotient⟩ := hall [1, 3, 9, 27] rfl
  obtain ⟨h, hh⟩ := hiff.2 (by decide)
  obtain ⟨-, hviolated, -⟩ := hall [1, 3, 9, 28] rfl
  exact ⟨q, hok, ⟨h, hh, hquotient h hh⟩, hviolated (by decide)⟩

end SuccinctProof.Qap
