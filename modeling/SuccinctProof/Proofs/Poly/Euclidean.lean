import Mathlib.Data.List.DropRight
import SuccinctProof.Proofs.Poly.Division

/-!
# Division on coefficient lists

What a division of coefficient lists returns is determined by a few properties (`IsDivMod`):
quotient times divisor plus remainder is the dividend, the remainder is as long as the dividend and
zero from the degree of the divisor on, and the quotient has one coefficient for each position at
which the divisor fits. Lengths are part of this, since lists are not trimmed. Only the divisor is
read without its leading zeros (`trimmedLength`).

* `exists_isDivMod_of_divMod`: a divisor other than zero has a quotient and a remainder.
* `IsDivMod.unique`: it has no others, since the difference of two remainders is a multiple of the
  divisor and has a smaller degree.
* `divMod_eq_error_iff`: a divisor that is zero is refused, and nothing else is.
* `exactDiv_eq_ok_iff`: exact division finds the factor that has the length of a quotient;
  `exists_exactDiv_iff` and `exactDiv_eq_notDivisible_iff` say when there is one.

`divMod_euclidean` puts this together.
-/

open Polynomial

namespace SuccinctProof.Poly

section Lists

variable {p : ℕ} [Modulus p]

/-- A highest coefficient that is zero is dropped, and any other ends the list. -/
theorem trim_concat (cs : List (Fp p)) (c : Fp p) :
    trim (cs ++ [c]) = if c = 0 then trim cs else cs ++ [c] := by
  induction cs with
  | nil => rfl
  | cons d cs ih =>
    rw [List.cons_append, trim, ih]
    by_cases hc : c = 0
    · rw [if_pos hc, if_pos hc, trim]
    · rw [if_neg hc, if_neg hc]
      cases cs <;> rfl

/-- Trimming drops zeros from the high end. -/
theorem trim_eq_rdropWhile (cs : List (Fp p)) : trim cs = cs.rdropWhile (· = 0) := by
  induction cs using List.reverseRecOn with
  | nil => rfl
  | append_singleton cs c ih =>
    rw [trim_concat, List.rdropWhile_concat, ih]
    simp only [decide_eq_true_eq]

/-- The number of coefficients without the leading zeros. -/
def trimmedLength (f : Poly p) : ℕ := (f.coeffs.rdropWhile (· = 0)).length

/-- The degree and one more. -/
theorem trimmedLength_eq {f : Poly p} (hf : f.toPolynomial ≠ 0) :
    f.trimmedLength = f.toPolynomial.natDegree + 1 := by
  rw [trimmedLength, ← trim_eq_rdropWhile]
  exact length_trim hf

theorem toPolynomial_ne_zero_iff {f : Poly p} :
    f.toPolynomial ≠ 0 ↔ ∃ c ∈ f.coeffs, c ≠ 0 := by
  rw [Ne, toPolynomial, formal_eq_zero_iff]
  push Not
  rfl

/-- What a division of `f` by `g` has to return. -/
structure IsDivMod (f g q r : Poly p) : Prop where
  /-- Quotient times divisor plus remainder is the dividend. -/
  eq_mul_add : f.toPolynomial = q.toPolynomial * g.toPolynomial + r.toPolynomial
  /-- The remainder has as many coefficients as the dividend. -/
  length_remainder : r.length = f.length
  /-- The remainder is zero from the degree of the divisor on. -/
  getD_remainder : ∀ i, g.trimmedLength - 1 ≤ i → r.coeffs.getD i 0 = 0
  /-- The quotient has a coefficient for each position at which the divisor fits. -/
  length_quotient : q.length =
    if f.length < g.trimmedLength then 0 else f.length - g.trimmedLength + 1

/-- The degree is smaller than the number of coefficients. -/
theorem natDegree_toPolynomial_lt {f : Poly p} (hf : f.toPolynomial ≠ 0) :
    f.toPolynomial.natDegree < f.length :=
  (natDegree_lt_iff_degree_lt hf).2 (degree_formal_lt _)

theorem IsDivMod.degree_remainder_lt {f g q r : Poly p} (h : IsDivMod f g q r)
    (hg : g.toPolynomial ≠ 0) : r.toPolynomial.degree < g.toPolynomial.degree := by
  rw [degree_eq_natDegree hg, degree_lt_iff_coeff_zero]
  intro i hi
  rw [toPolynomial, coeff_formal]
  refine h.getD_remainder i ?_
  rwa [trimmedLength_eq hg, Nat.add_sub_cancel]

end Lists

variable {p : ℕ} [Fact p.Prime] {f g : Poly p}

/-- **Division returns what it has to.** -/
theorem exists_isDivMod_of_divMod (f : Poly p) (hg : g.toPolynomial ≠ 0) :
    ∃ q r, f.divMod g = .ok (q, r) ∧ IsDivMod f g q r := by
  obtain ⟨q, r, hok, hdiv, hdeg, hq, hr⟩ := divMod_spec f hg
  refine ⟨q, r, hok, hdiv, hr, fun i hi ↦ ?_, ?_⟩
  · rw [trimmedLength_eq hg, Nat.add_sub_cancel] at hi
    rw [← coeff_formal]
    refine coeff_eq_zero_of_degree_lt (hdeg.trans_le ?_)
    exact degree_le_natDegree.trans (Nat.cast_le.2 hi)
  · rw [hq, trimmedLength_eq hg]
    split <;> omega

/-- **Nothing else can be returned.** -/
theorem IsDivMod.unique (hg : g.toPolynomial ≠ 0) {q r q' r' : Poly p} (h : IsDivMod f g q r)
    (h' : IsDivMod f g q' r') : q = q' ∧ r = r' := by
  have hsub : r.toPolynomial - r'.toPolynomial =
      (q'.toPolynomial - q.toPolynomial) * g.toPolynomial := by
    linear_combination h'.eq_mul_add - h.eq_mul_add
  have hdeg : (r.toPolynomial - r'.toPolynomial).degree < g.toPolynomial.degree :=
    (degree_sub_le _ _).trans_lt
      (max_lt (h.degree_remainder_lt hg) (h'.degree_remainder_lt hg))
  -- a multiple of the divisor that has a smaller degree is zero
  have hr : r.toPolynomial - r'.toPolynomial = 0 :=
    eq_zero_of_dvd_of_degree_lt (hsub ▸ dvd_mul_left _ _) hdeg
  have hq : q'.toPolynomial - q.toPolynomial = 0 :=
    (mul_eq_zero.1 (hsub.symm.trans hr)).resolve_right hg
  constructor
  · refine eq_of_toPolynomial_eq ?_ (sub_eq_zero.1 hq).symm
    exact h.length_quotient.trans h'.length_quotient.symm
  · refine eq_of_toPolynomial_eq ?_ (sub_eq_zero.1 hr)
    exact h.length_remainder.trans h'.length_remainder.symm

/-- **A divisor that is zero is refused, and no other is.** -/
theorem divMod_eq_error_iff {e : Error} :
    f.divMod g = .error e ↔ g.toPolynomial = 0 ∧ e = .divisionByZero := by
  by_cases hg : g.toPolynomial = 0
  · rw [divMod_of_eq_zero f hg, Except.error.injEq, and_iff_right hg, eq_comm]
  · obtain ⟨q, r, hok, -⟩ := exists_isDivMod_of_divMod f hg
    rw [hok]
    exact iff_of_false nofun fun h ↦ hg h.1

/-- Exact division by another divisor returns the factor that is as long as a quotient. -/
theorem exactDiv_eq_ok_iff (hg : g.toPolynomial ≠ 0) {q : Poly p} :
    f.exactDiv g = .ok q ↔ q.toPolynomial * g.toPolynomial = f.toPolynomial ∧
      q.length = f.length - g.toPolynomial.natDegree := by
  constructor
  · intro h
    have hmul := mul_eq_of_exactDiv h
    obtain ⟨q', hq', -, hlen⟩ := exactDiv_of_dvd hg (Dvd.intro_left _ hmul)
    obtain rfl := Except.ok.inj (hq'.symm.trans h)
    exact ⟨hmul, hlen⟩
  · rintro ⟨hmul, hlen⟩
    obtain ⟨q', hq', hmul', hlen'⟩ := exactDiv_of_dvd hg (Dvd.intro_left _ hmul)
    rw [hq', Except.ok.injEq]
    refine eq_of_toPolynomial_eq (hlen'.trans hlen.symm) ?_
    exact mul_right_cancel₀ hg (hmul'.trans hmul.symm)

/-- **Exactly the multiples of another divisor can be divided exactly.** -/
theorem exists_exactDiv_iff (hg : g.toPolynomial ≠ 0) :
    (∃ q, f.exactDiv g = .ok q) ↔ g.toPolynomial ∣ f.toPolynomial := by
  constructor
  · rintro ⟨q, hq⟩
    exact Dvd.intro_left _ (mul_eq_of_exactDiv hq)
  · intro hdvd
    obtain ⟨q, hq, -⟩ := exactDiv_of_dvd hg hdvd
    exact ⟨q, hq⟩

/-- Exact division by a divisor other than zero is refused for one reason. -/
theorem exactDiv_eq_error_iff (hg : g.toPolynomial ≠ 0) {e : Error} :
    f.exactDiv g = .error e ↔ ¬ g.toPolynomial ∣ f.toPolynomial ∧ e = .notDivisible := by
  by_cases hdvd : g.toPolynomial ∣ f.toPolynomial
  · obtain ⟨q, hq⟩ := (exists_exactDiv_iff hg).2 hdvd
    rw [hq]
    exact iff_of_false nofun fun h ↦ h.1 hdvd
  · rw [exactDiv_of_not_dvd hg hdvd, Except.error.injEq, and_iff_right hdvd, eq_comm]

/-- Every other dividend is refused as not divisible. -/
theorem exactDiv_eq_notDivisible_iff (hg : g.toPolynomial ≠ 0) :
    f.exactDiv g = .error .notDivisible ↔ ¬ g.toPolynomial ∣ f.toPolynomial := by
  rw [exactDiv_eq_error_iff hg, and_iff_left rfl]

/-- **A factor is found again**, with a zero for each leading zero of the divisor. -/
theorem exists_exactDiv_mul (f : Poly p) (hg : g.toPolynomial ≠ 0) :
    ∃ k, (f * g).exactDiv g = .ok ⟨f.coeffs ++ List.replicate k 0⟩ := by
  have hfits : f.length ≤ (f * g).length - g.toPolynomial.natDegree := by
    have hdegree := natDegree_toPolynomial_lt hg
    rcases Nat.eq_zero_or_pos f.length with hf | hf
    · omega
    · rw [length_mul (by omega) (by omega)]
      omega
  refine ⟨(f * g).length - g.toPolynomial.natDegree - f.length, (exactDiv_eq_ok_iff hg).2 ⟨?_, ?_⟩⟩
  · rw [toPolynomial_mul, toPolynomial, formal_append, formal_replicate_zero, mul_zero, add_zero]
    rfl
  · rw [length, List.length_append, List.length_replicate, ← length]
    omega

/-- **Division is Euclidean division on lists that are not trimmed.** A divisor whose coefficients
are all zero is refused as zero, and no other divisor is. With any other divisor, division returns
the quotient and the remainder that `IsDivMod` describes, and there are no others; exact division
succeeds exactly on the multiples of the divisor, returns the factor, and is refused as not
divisible on all other dividends; and the exact quotient of a product is the other factor, up to
leading zeros. -/
theorem divMod_euclidean (f g : Poly p) :
    (∀ e, f.divMod g = .error e ↔ (∀ c ∈ g.coeffs, c = 0) ∧ e = .divisionByZero) ∧
    ((∀ c ∈ g.coeffs, c = 0) → f.exactDiv g = .error .divisionByZero) ∧
    ((∃ c ∈ g.coeffs, c ≠ 0) →
      (∃ q r, f.divMod g = .ok (q, r) ∧ ∀ q' r', IsDivMod f g q' r' ↔ q' = q ∧ r' = r) ∧
      ((∃ q, f.exactDiv g = .ok q) ↔ g.toPolynomial ∣ f.toPolynomial) ∧
      (∀ q, f.exactDiv g = .ok q → q.toPolynomial * g.toPolynomial = f.toPolynomial) ∧
      (f.exactDiv g = .error .notDivisible ↔ ¬ g.toPolynomial ∣ f.toPolynomial) ∧
      ∃ k, (f * g).exactDiv g = .ok ⟨f.coeffs ++ List.replicate k 0⟩) := by
  simp only [← formal_eq_zero_iff, ← toPolynomial_ne_zero_iff]
  refine ⟨fun e ↦ divMod_eq_error_iff, exactDiv_of_eq_zero f, fun hg ↦ ⟨?_,
    exists_exactDiv_iff hg, fun q ↦ mul_eq_of_exactDiv, exactDiv_eq_notDivisible_iff hg,
    exists_exactDiv_mul f hg⟩⟩
  obtain ⟨q, r, hok, hdiv⟩ := exists_isDivMod_of_divMod f hg
  refine ⟨q, r, hok, fun q' r' ↦ ⟨fun h ↦ h.unique hg hdiv, ?_⟩⟩
  rintro ⟨rfl, rfl⟩
  exact hdiv

/-- The divisor has a leading zero, and so have the dividend and the factor that is found again. -/
theorem divMod_leadingZeros :
    (∃ c ∈ (⟨[2, 1, 0]⟩ : Poly 101).coeffs, c ≠ 0) ∧
    (∀ q r : Poly 101, IsDivMod ⟨[5, 3, 1, 0]⟩ ⟨[2, 1, 0]⟩ q r ↔
      q = ⟨[1, 1, 0]⟩ ∧ r = ⟨[3, 0, 0, 0]⟩) ∧
    (⟨[5, 3, 1, 0]⟩ : Poly 101).exactDiv ⟨[2, 1, 0]⟩ = .error .notDivisible ∧
    ∃ k, (⟨[7, 4, 0]⟩ * ⟨[2, 1, 0]⟩ : Poly 101).exactDiv ⟨[2, 1, 0]⟩ =
      .ok ⟨[7, 4, 0] ++ List.replicate k 0⟩ := by
  have hne : ∃ c ∈ (⟨[2, 1, 0]⟩ : Poly 101).coeffs, c ≠ 0 := ⟨2, by decide, by decide⟩
  obtain ⟨-, -, h⟩ := divMod_euclidean (⟨[5, 3, 1, 0]⟩ : Poly 101) ⟨[2, 1, 0]⟩
  obtain ⟨⟨q, r, hok, hunique⟩, -⟩ := h hne
  obtain ⟨-, -, h'⟩ := divMod_euclidean (⟨[7, 4, 0]⟩ : Poly 101) ⟨[2, 1, 0]⟩
  obtain ⟨-, -, -, -, hfactor⟩ := h' hne
  have hok' : (⟨[5, 3, 1, 0]⟩ : Poly 101).divMod ⟨[2, 1, 0]⟩ =
      .ok (⟨[1, 1, 0]⟩, ⟨[3, 0, 0, 0]⟩) := by decide +kernel
  cases Except.ok.inj (hok.symm.trans hok')
  exact ⟨hne, hunique, by decide +kernel, hfactor⟩

end SuccinctProof.Poly
