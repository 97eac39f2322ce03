import Mathlib.Algebra.BigOperators.Group.Finset.Basic
import SuccinctProof.Proofs.Poly.Semiring

/-!
# Linear combinations

`Poly.combine` fills a buffer in place, drops what the buffer has no place for, and passes over zero
weights. The buffer is long enough from the start, so nothing is dropped, and it holds after each
step what scaling and adding would have given (`Poly.combine_eq_foldl_add`). Each coefficient of the
result is the dot product of the weights with the coefficients of that power (`coeff_combine`), and
the length does not depend on the weights. So a combination is what scaling each polynomial and
adding up gives, with one difference: polynomials without a weight count for the length
(`combine_eq_sum` asks for a weight for each of them).

`combine_weighted_sum` puts this together, with linearity in the weights.
-/

open Polynomial

namespace SuccinctProof

/-- Two lists put together entry by entry are added up over the positions that both have. -/
theorem sum_zipWith_eq_sum_range {α β M : Type} [AddCommMonoid M] (f : α → β → M) (as : List α)
    (bs : List β) (a : α) (b : β) :
    (as.zipWith f bs).sum =
      ∑ i ∈ Finset.range (min as.length bs.length), f (as.getD i a) (bs.getD i b) := by
  induction as generalizing bs with
  | nil => simp
  | cons a' as ih =>
    cases bs with
    | nil => simp
    | cons b' bs =>
      rw [List.zipWith_cons_cons, List.sum_cons, ih, List.length_cons, List.length_cons,
        Nat.succ_min_succ, Finset.sum_range_succ', add_comm]
      rfl

namespace Poly

variable {p : ℕ} [Modulus p]

/-- **A coefficient of a combination is the dot product of the weights with the coefficients.** -/
theorem coeff_combine (ws : List (Fp p)) (fs : List (Poly p)) (i : ℕ) :
    (combine ws fs).toPolynomial.coeff i = dot ws (fs.map (·.toPolynomial.coeff i)) := by
  rw [toPolynomial_combine, coeff_list_sum, List.map_zipWith, dot, List.zipWith_map_right]
  simp only [lcoeff_apply, coeff_mul_C, mul_comm]

/-- **With a weight for each polynomial, a combination is the sum of the scaled polynomials**,
coefficient by coefficient and with the same length. -/
theorem combine_eq_sum {ws : List (Fp p)} {fs : List (Poly p)} (h : fs.length ≤ ws.length) :
    combine ws fs = sum (ws.zipWith (fun w f ↦ f.scale w) fs) := by
  have hlengths : (ws.zipWith (fun w f ↦ f.scale w) fs).map length = fs.map length := by
    refine List.ext_getElem ?_ fun i _ _ ↦ ?_
    · rw [List.length_map, List.length_zipWith, List.length_map, min_eq_right h]
    · rw [List.getElem_map, List.getElem_zipWith, length_scale, List.getElem_map]
  refine eq_of_toPolynomial_eq ?_ ?_
  · rw [length_combine, length_sum, maxLength_eq_max?, maxLength_eq_max?, hlengths]
  · rw [toPolynomial_combine, toPolynomial_sum, List.map_zipWith]
    simp only [toPolynomial_scale]

/-! ### Linearity in the weights -/

theorem combine_zipWith_add {ws vs : List (Fp p)} (h : ws.length = vs.length)
    (fs : List (Poly p)) : combine (ws.zipWith (· + ·) vs) fs = combine ws fs + combine vs fs := by
  refine eq_of_toPolynomial_eq ?_ (Polynomial.ext fun i ↦ ?_)
  · rw [length_add, length_combine, length_combine, length_combine, max_self]
  · rw [toPolynomial_add, coeff_add, coeff_combine, coeff_combine, coeff_combine,
      dot_zipWith_add _ h]

theorem combine_map_mul (k : Fp p) (ws : List (Fp p)) (fs : List (Poly p)) :
    combine (ws.map (k * ·)) fs = (combine ws fs).scale k := by
  refine eq_of_toPolynomial_eq ?_ (Polynomial.ext fun i ↦ ?_)
  · rw [length_scale, length_combine, length_combine]
  · rw [toPolynomial_scale, coeff_mul_C, coeff_combine, coeff_combine, dot_comm, dot_map_mul,
      dot_comm, mul_comm]

/-! ### Combinations -/

/-- **A combination is the weighted sum, with the length of the whole list.** Take any weights and
any polynomials. What is collected in place is what adding the scaled polynomials to zeros gives, as
many zeros as the longest of all the polynomials has coefficients. The combination has that many
coefficients, and its formal polynomial is the sum over the positions that both lists have. With a
weight for each polynomial, it is the sum of the scaled polynomials, coefficient by coefficient and
with the same length, so a zero weight that is passed over changes nothing. For weights of one
length it is additive, and it is homogeneous. -/
theorem combine_weighted_sum (ws : List (Fp p)) (fs : List (Poly p)) :
    combine ws fs = (ws.zipWith (fun w f ↦ f.scale w) fs).foldl (· + ·)
      (zeros ((fs.map length).max?.getD 0)) ∧
    (combine ws fs).length = (fs.map length).max?.getD 0 ∧
    (combine ws fs).toPolynomial = ∑ i ∈ Finset.range (min ws.length fs.length),
      C (ws.getD i 0) * (fs.getD i 0).toPolynomial ∧
    (fs.length ≤ ws.length → combine ws fs = sum (ws.zipWith (fun w f ↦ f.scale w) fs)) ∧
    (∀ vs : List (Fp p), ws.length = vs.length →
      combine (ws.zipWith (· + ·) vs) fs = combine ws fs + combine vs fs) ∧
    ∀ k : Fp p, combine (ws.map (k * ·)) fs = (combine ws fs).scale k := by
  refine ⟨?_, ?_, ?_, combine_eq_sum, fun vs h ↦ combine_zipWith_add h fs,
    fun k ↦ combine_map_mul k ws fs⟩
  · rw [combine_eq_foldl_add, maxLength_eq_max?]
  · rw [length_combine, maxLength_eq_max?]
  · rw [toPolynomial_combine, sum_zipWith_eq_sum_range _ ws fs 0 0]
    simp only [mul_comm]

/-- The second of three polynomials has the weight zero, and the longest one ends in a zero. -/
theorem combine_threePolynomials :
    combine [2, 0, 3] [⟨[1, 2]⟩, ⟨[3]⟩, ⟨[0, 0, 4, 0]⟩] = (⟨[2, 4, 12, 0]⟩ : Poly 101) ∧
    sum [⟨[2, 4]⟩, ⟨[0]⟩, ⟨[0, 0, 12, 0]⟩] = (⟨[2, 4, 12, 0]⟩ : Poly 101) ∧
    combine [7, 1, 3] [⟨[1, 2]⟩, ⟨[3]⟩, ⟨[0, 0, 4, 0]⟩] =
      (⟨[2, 4, 12, 0]⟩ + combine [5, 1, 0] [⟨[1, 2]⟩, ⟨[3]⟩, ⟨[0, 0, 4, 0]⟩] : Poly 101) := by
  have hcombine : combine [2, 0, 3] [⟨[1, 2]⟩, ⟨[3]⟩, ⟨[0, 0, 4, 0]⟩] =
      (⟨[2, 4, 12, 0]⟩ : Poly 101) := by decide +kernel
  obtain ⟨-, -, -, hsum, hadd, -⟩ := combine_weighted_sum [2, 0, 3]
    ([⟨[1, 2]⟩, ⟨[3]⟩, ⟨[0, 0, 4, 0]⟩] : List (Poly 101))
  rw [hcombine] at hsum hadd
  exact ⟨hcombine, (hsum (by decide)).symm, hadd [5, 1, 0] rfl⟩

end Poly

end SuccinctProof
