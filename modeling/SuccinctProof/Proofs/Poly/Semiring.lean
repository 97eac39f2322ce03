import SuccinctProof.Proofs.Poly.Formal

/-!
# Coefficient lists form a semiring

An equation between coefficient lists is one of formal polynomials and one of lengths
(`eq_of_toPolynomial_eq`). Both kinds hold for the laws of a commutative semiring: the lengths of
sums and products are maxima and sums, as degrees are, and a list without coefficients is absorbed
by sums and absorbs products. So `Poly p` is a `CommSemiring`, with leading zeros and all.

It is not a ring. A difference is as long as its longer operand, so `f - f` is a list of zeros, and
only the list without coefficients can be added to everything without a change.

* `toPolynomialHom` and `evalHom` forget the length, and keep the formal polynomial and one of its
  values. Both are homomorphisms of semirings, and what they do to a sum of many polynomials follows.
* `length_mul_eq_ite` and `length_sum` give the lengths for all operands, also without coefficients.

`arithmetic_laws` puts this together.
-/

open Polynomial

namespace SuccinctProof.Poly

variable {p : ℕ}

/-! ### Lengths of all operands -/

@[simp] theorem length_zero : (0 : Poly p).length = 0 := rfl

/-- The length of the longest polynomial is the greatest of the lengths. -/
theorem maxLength_eq_max? (fs : List (Poly p)) : maxLength fs = (fs.map length).max?.getD 0 := by
  induction fs with
  | nil => rfl
  | cons f fs ih =>
    show max f.length (maxLength fs) = _
    rw [ih, List.map_cons, List.max?_cons]
    cases (fs.map length).max? with
    | none => exact Nat.max_zero _
    | some n => rfl

variable [Modulus p]

@[simp] theorem length_one : (1 : Poly p).length = 1 := rfl

/-- A product without coefficients has a factor without coefficients. -/
theorem length_mul_eq_ite (f g : Poly p) :
    (f * g).length = if f.length = 0 ∨ g.length = 0 then 0 else f.length + g.length - 1 := by
  split
  · next h =>
    show (if g.isEmpty then (0 : Poly p) else ⟨mulCoeffs f.coeffs g.coeffs⟩).length = 0
    rcases h with hf | hg
    · have hnil : f.coeffs = [] := List.length_eq_zero_iff.1 hf
      rw [hnil]
      split <;> rfl
    · have hempty : g.isEmpty = true := List.isEmpty_iff_length_eq_zero.2 hg
      rw [if_pos hempty, length_zero]
  · next h =>
    rw [not_or] at h
    exact length_mul h.1 h.2

/-! ### The semiring -/

/-- **Coefficient lists with their lengths form a commutative semiring.** -/
instance : CommSemiring (Poly p) where
  add_assoc f g h := eq_of_toPolynomial_eq (by simp only [length_add, max_assoc])
    (by simp only [toPolynomial_add, add_assoc])
  add_comm f g := eq_of_toPolynomial_eq (by rw [length_add, length_add, max_comm])
    (by rw [toPolynomial_add, toPolynomial_add, add_comm])
  zero_add f := eq_of_toPolynomial_eq (by rw [length_add, length_zero, Nat.zero_max])
    (by rw [toPolynomial_add, toPolynomial_zero, zero_add])
  add_zero f := eq_of_toPolynomial_eq (by rw [length_add, length_zero, Nat.max_zero])
    (by rw [toPolynomial_add, toPolynomial_zero, add_zero])
  mul_assoc f g h := eq_of_toPolynomial_eq
    (by simp only [length_mul_eq_ite]; split_ifs <;> omega)
    (by simp only [toPolynomial_mul, mul_assoc])
  mul_comm f g := eq_of_toPolynomial_eq
    (by simp only [length_mul_eq_ite]; split_ifs <;> omega)
    (by rw [toPolynomial_mul, toPolynomial_mul, mul_comm])
  zero_mul f := eq_of_toPolynomial_eq (by rw [length_mul_eq_ite, if_pos (.inl rfl), length_zero])
    (by rw [toPolynomial_mul, toPolynomial_zero, zero_mul])
  mul_zero f := eq_of_toPolynomial_eq (by rw [length_mul_eq_ite, if_pos (.inr rfl), length_zero])
    (by rw [toPolynomial_mul, toPolynomial_zero, mul_zero])
  one_mul f := eq_of_toPolynomial_eq
    (by rw [length_mul_eq_ite, length_one]; split <;> omega)
    (by rw [toPolynomial_mul, toPolynomial_one, one_mul])
  mul_one f := eq_of_toPolynomial_eq
    (by rw [length_mul_eq_ite, length_one]; split <;> omega)
    (by rw [toPolynomial_mul, toPolynomial_one, mul_one])
  left_distrib f g h := eq_of_toPolynomial_eq
    (by simp only [length_mul_eq_ite, length_add]; split_ifs <;> omega)
    (by simp only [toPolynomial_mul, toPolynomial_add, mul_add])
  right_distrib f g h := eq_of_toPolynomial_eq
    (by simp only [length_mul_eq_ite, length_add]; split_ifs <;> omega)
    (by simp only [toPolynomial_mul, toPolynomial_add, add_mul])
  nsmul := nsmulRec
  npow := npowRec

/-- Forgetting the length respects sums and products. -/
noncomputable def toPolynomialHom : Poly p →+* (Fp p)[X] where
  toFun := toPolynomial
  map_zero' := toPolynomial_zero
  map_one' := toPolynomial_one
  map_add' := toPolynomial_add
  map_mul' := toPolynomial_mul

/-- So does taking the value at a point. -/
def evalHom (x : Fp p) : Poly p →+* Fp p where
  toFun f := f.eval x
  map_zero' := rfl
  map_one' := eval_one x
  map_add' f g := eval_add f g x
  map_mul' f g := eval_mul f g x

/-! ### Sums of many polynomials -/

/-- Adding up from the left is adding up. -/
theorem sum_eq_listSum (fs : List (Poly p)) : sum fs = fs.sum :=
  List.sum_eq_foldl.symm

theorem toPolynomial_sum (fs : List (Poly p)) :
    (sum fs).toPolynomial = (fs.map toPolynomial).sum := by
  rw [sum_eq_listSum]
  exact map_list_sum toPolynomialHom fs

theorem eval_sum (fs : List (Poly p)) (x : Fp p) : (sum fs).eval x = (fs.map (·.eval x)).sum := by
  rw [sum_eq_listSum]
  exact map_list_sum (evalHom x) fs

/-- A sum is as long as its longest summand. -/
theorem length_sum (fs : List (Poly p)) : (sum fs).length = maxLength fs := by
  rw [sum_eq_listSum]
  induction fs with
  | nil => rfl
  | cons f fs ih =>
    rw [List.sum_cons, length_add, ih]
    rfl

/-! ### The laws -/

/-- **The arithmetic of coefficient lists is the arithmetic of polynomials, with lengths of its
own.** Take any polynomials, also without coefficients and with leading zeros. Sums, differences,
products, multiples and sums of many go to those of the formal polynomials, whose coefficients are
the entries of the lists, and to those of the values at every point. Sums and differences are as
long as the longer operand, a product has one coefficient less than both factors together unless
one of them has none, and a sum of many is as long as the longest. With lengths and leading zeros,
multiplication is commutative and associative, addition is too and has the list without coefficients
as its unit, and multiplication distributes over addition. -/
theorem arithmetic_laws (f g h : Poly p) (fs : List (Poly p)) (s : Fp p) :
    ((∀ i, f.toPolynomial.coeff i = f.coeffs.getD i 0) ∧
      (f + g).toPolynomial = f.toPolynomial + g.toPolynomial ∧
      (f - g).toPolynomial = f.toPolynomial - g.toPolynomial ∧
      (f * g).toPolynomial = f.toPolynomial * g.toPolynomial ∧
      (f.scale s).toPolynomial = f.toPolynomial * C s ∧
      (sum fs).toPolynomial = (fs.map toPolynomial).sum) ∧
    (∀ x, f.eval x = f.toPolynomial.eval x ∧
      (f + g).eval x = f.eval x + g.eval x ∧
      (f - g).eval x = f.eval x - g.eval x ∧
      (f * g).eval x = f.eval x * g.eval x ∧
      (f.scale s).eval x = f.eval x * s ∧
      (sum fs).eval x = (fs.map (·.eval x)).sum) ∧
    ((f + g).length = max f.length g.length ∧
      (f - g).length = max f.length g.length ∧
      (f * g).length = (if f.length = 0 ∨ g.length = 0 then 0 else f.length + g.length - 1) ∧
      (f.scale s).length = f.length ∧
      (sum fs).length = (fs.map length).max?.getD 0) ∧
    (f * g = g * f ∧ f * g * h = f * (g * h)) ∧
    (f + g = g + f ∧ f + g + h = f + (g + h) ∧ f + ⟨[]⟩ = f ∧ ⟨[]⟩ + f = f) ∧
    f * (g + h) = f * g + f * h ∧ (f + g) * h = f * h + g * h := by
  refine ⟨⟨coeff_formal f.coeffs, toPolynomial_add f g, toPolynomial_sub f g, toPolynomial_mul f g,
    toPolynomial_scale f s, toPolynomial_sum fs⟩, fun x ↦ ?_, ?_, ⟨mul_comm f g, mul_assoc f g h⟩,
    ⟨add_comm f g, add_assoc f g h, add_zero f, zero_add f⟩, mul_add f g h, add_mul f g h⟩
  · exact ⟨(eval_toPolynomial f x).symm, eval_add f g x, eval_sub f g x, eval_mul f g x,
      eval_scale f s x, eval_sum fs x⟩
  · rw [← maxLength_eq_max?]
    exact ⟨length_add f g, length_sub f g, length_mul_eq_ite f g, length_scale f s, length_sum fs⟩

/-- Factors with and without leading zeros, and a summand without coefficients. -/
theorem arithmetic_leadingZeros :
    (⟨[1, 2, 0]⟩ * ⟨[3, 5]⟩ : Poly 101) = ⟨[3, 11, 10, 0]⟩ ∧
    (⟨[3, 5]⟩ * ⟨[1, 2, 0]⟩ : Poly 101) = ⟨[3, 11, 10, 0]⟩ ∧
    (⟨[1, 2, 0]⟩ * (⟨[3, 5]⟩ + ⟨[]⟩) : Poly 101) = ⟨[3, 11, 10, 0]⟩ + ⟨[1, 2, 0]⟩ * ⟨[]⟩ ∧
    (sum [⟨[3, 5]⟩, ⟨[]⟩, ⟨[1, 2, 0]⟩] : Poly 101).length = 3 := by
  have hmul : (⟨[1, 2, 0]⟩ * ⟨[3, 5]⟩ : Poly 101) = ⟨[3, 11, 10, 0]⟩ := by decide
  obtain ⟨-, -, ⟨-, -, -, -, hsum⟩, ⟨hcomm, -⟩, -, hdistrib, -⟩ :=
    arithmetic_laws (⟨[1, 2, 0]⟩ : Poly 101) ⟨[3, 5]⟩ ⟨[]⟩ [⟨[3, 5]⟩, ⟨[]⟩, ⟨[1, 2, 0]⟩] 7
  rw [hmul] at hcomm hdistrib
  exact ⟨hmul, hcomm.symm, hdistrib, hsum⟩

end SuccinctProof.Poly
