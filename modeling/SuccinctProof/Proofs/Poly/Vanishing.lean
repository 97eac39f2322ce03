import SuccinctProof.Proofs.Poly.Euclidean
import SuccinctProof.Proofs.Poly.Interpolation

/-!
# Division by the vanishing polynomial

The vanishing polynomial of `1, …, n` has the leading coefficient one and one coefficient more than
it has roots, and below the modulus its roots are distinct. So it divides exactly the polynomials
that vanish at `1, …, n` (`toPolynomial_vanishing_dvd_iff`), and a division by it is never one by
zero.

`exactDiv_vanishing` says this of the division that is computed, for dividends of any length. This
is the step from values at constraint points to a quotient.
-/

namespace SuccinctProof.Poly

variable {p : ℕ} [Fact p.Prime]

/-- The leading coefficient is one. -/
theorem getLast?_coeffs_vanishing (n : ℕ) : (vanishing n : Poly p).coeffs.getLast? = some 1 := by
  have hmonic : (vanishing n : Poly p).toPolynomial.Monic := monic_ofRoots _
  have hlength : (vanishing n : Poly p).coeffs.length = n + 1 := length_vanishing n
  have hcoeff := hmonic.coeff_natDegree
  rw [natDegree_vanishing, toPolynomial, coeff_formal, List.getD_eq_getElem _ _ (by omega)] at hcoeff
  rw [List.getLast?_eq_getElem?, hlength, Nat.add_sub_cancel, List.getElem?_eq_getElem (by omega),
    hcoeff]

/-- **Dividing by the vanishing polynomial decides vanishing.** Let `n` be below the modulus. The
vanishing polynomial has `n + 1` coefficients and the leading coefficient one, and its roots are
exactly the residues of `1, …, n`. A polynomial of any length is divided by it exactly when its
value at each of `1, …, n` is zero, and any other polynomial is refused as not divisible and for no
other reason. -/
theorem exactDiv_vanishing {n : ℕ} (hn : n < p) :
    (vanishing n : Poly p).length = n + 1 ∧
    (vanishing n : Poly p).coeffs.getLast? = some 1 ∧
    (∀ x : Fp p, (vanishing n).eval x = 0 ↔ ∃ i : ℕ, (1 ≤ i ∧ i ≤ n) ∧ (i : Fp p) = x) ∧
    ∀ f : Poly p,
      ((∃ q, f.exactDiv (vanishing n) = .ok q) ↔
        ∀ i : ℕ, 1 ≤ i → i ≤ n → f.eval (i : Fp p) = 0) ∧
      ∀ e, f.exactDiv (vanishing n) = .error e ↔
        ¬ (∀ i : ℕ, 1 ≤ i → i ≤ n → f.eval (i : Fp p) = 0) ∧ e = .notDivisible := by
  refine ⟨length_vanishing n, getLast?_coeffs_vanishing n, fun x ↦ eval_vanishing_eq_zero_iff,
    fun f ↦ ?_⟩
  have hne : (vanishing n : Poly p).toPolynomial ≠ 0 := toPolynomial_vanishing_ne_zero n
  rw [← toPolynomial_vanishing_dvd_iff hn f]
  exact ⟨exists_exactDiv_iff hne, fun e ↦ exactDiv_eq_error_iff hne⟩

/-- Twice the vanishing polynomial of three points with a leading zero, and a polynomial that
vanishes at none of the points. -/
theorem exactDiv_vanishing_three :
    (vanishing 3 : Poly 101).length = 4 ∧
    (∃ q, (⟨[-12, 22, -12, 2, 0]⟩ : Poly 101).exactDiv (vanishing 3) = .ok q) ∧
    (⟨[0, 1]⟩ : Poly 101).exactDiv (vanishing 3) = .error .notDivisible := by
  obtain ⟨hlength, -, -, hdiv⟩ := exactDiv_vanishing (p := 101) (by decide : 3 < 101)
  refine ⟨hlength, (hdiv _).1.2 fun i hpos hle ↦ ?_, ((hdiv _).2 _).2 ⟨fun h ↦ ?_, rfl⟩⟩
  · obtain rfl | rfl | rfl : i = 1 ∨ i = 2 ∨ i = 3 := by omega
    all_goals decide
  · exact absurd (h 1 (by decide) (by decide)) (by decide)

end SuccinctProof.Poly
