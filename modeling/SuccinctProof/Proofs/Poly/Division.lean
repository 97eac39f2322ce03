import Mathlib.Algebra.Polynomial.RingDivision
import SuccinctProof.Poly.Division
import SuccinctProof.Proofs.Poly.Formal

/-!
# Long division is Euclidean division

`Poly.divMod` computes, on lists, the quotient and the remainder of the formal polynomials. What
carries the induction is `Poly.reduce`: for every list of dividend coefficients `formal_reduce` is the
equation of the division, `length_reduce` says how long the results are, and `getD_reduce_of_le` that
the coefficients which were to be eliminated are zero.

The modulus is prime from `divMod_spec` on, so that the leading coefficient of the divisor has an
inverse and the remainder of a division is determined by its degree. Exact division then succeeds
exactly on multiples of the divisor (`exactDiv_of_dvd`, `exactDiv_of_not_dvd`), and what it returns
is the quotient whatever the divisor is (`mul_eq_of_exactDiv`).
-/

open Polynomial

namespace SuccinctProof.Poly

section Lists

variable {p : ℕ} [Modulus p]

/-! ### The divisor without its leading zeros -/

theorem formal_trim (cs : List (Fp p)) : formal (trim cs) = formal cs := by
  induction cs with
  | nil => rfl
  | cons c cs ih =>
    rw [trim, formal_cons, ← ih]
    split
    · next h =>
      rw [h, formal_nil, mul_zero, add_zero]
      split
      · next hc => rw [hc, C_0, formal_nil]
      · rw [formal_cons, formal_nil, mul_zero, add_zero]
    · rw [formal_cons]

/-- The highest coefficient that is kept is not zero. -/
theorem getLastD_trim_ne_zero {cs : List (Fp p)} (h : trim cs ≠ []) :
    (trim cs).getLastD 0 ≠ 0 := by
  induction cs with
  | nil => exact absurd rfl h
  | cons c cs ih =>
    rw [trim] at h ⊢
    split at h
    · next hcs =>
      split at h
      · exact absurd rfl h
      · next hc => simp [hc]
    · next hcs =>
      obtain ⟨d, ds, hds⟩ := List.exists_cons_of_ne_nil hcs
      have := ih hcs
      rw [hds] at this ⊢
      simpa using this

theorem trim_ne_nil {cs : List (Fp p)} (h : formal cs ≠ 0) : trim cs ≠ [] := by
  intro hnil
  rw [← formal_trim, hnil] at h
  exact h rfl

/-- The last entry of a list is its coefficient with the highest index. -/
theorem getLastD_eq_coeff (cs : List (Fp p)) :
    cs.getLastD 0 = (formal cs).coeff (cs.length - 1) := by
  rw [coeff_formal, List.getD_eq_getElem?_getD, ← List.getLast?_eq_getElem?,
    List.getLastD_eq_getLast?]

/-- Nothing is left of a list whose entries are all zero. -/
theorem trim_eq_nil {cs : List (Fp p)} (h : formal cs = 0) : trim cs = [] := by
  by_contra hne
  refine getLastD_trim_ne_zero hne ?_
  rw [getLastD_eq_coeff, formal_trim, h, coeff_zero]

/-- Without its leading zeros a list is as long as its degree says. -/
theorem length_trim {cs : List (Fp p)} (h : formal cs ≠ 0) :
    (trim cs).length = (formal cs).natDegree + 1 := by
  have hne := trim_ne_nil h
  have hpos : 0 < (trim cs).length := List.length_pos_iff.2 hne
  have hlast : (formal cs).coeff ((trim cs).length - 1) ≠ 0 := by
    rw [← formal_trim, ← getLastD_eq_coeff]
    exact getLastD_trim_ne_zero hne
  have hle : (trim cs).length - 1 ≤ (formal cs).natDegree := le_natDegree_of_ne_zero hlast
  have hlt : (formal cs).natDegree < (trim cs).length := by
    rw [natDegree_lt_iff_degree_lt h, ← formal_trim]
    exact degree_formal_lt _
  omega

/-! ### One coefficient of the quotient -/

/-- **The multiple that is taken off cancels the coefficient under its highest one**, and leaves
alone what stands above. -/
theorem getD_updateWith_cancel {window divisor : List (Fp p)} {lead top : Fp p}
    (hne : divisor ≠ []) (hlead : lead * divisor.getLastD 0 = 1)
    (htop : window[divisor.length - 1]? = some top) {i : ℕ} (hi : divisor.length - 1 ≤ i) :
    (updateWith (fun r d ↦ r - top * lead * d) window divisor).getD i 0 =
      if i = divisor.length - 1 then 0 else window.getD i 0 := by
  have hpos : 0 < divisor.length := List.length_pos_iff.2 hne
  have hlen : divisor.length ≤ window.length := by
    have := (List.getElem?_eq_some_iff.1 htop).1
    omega
  rw [← coeff_formal, formal_updateWith_sub _ hlen, coeff_sub, coeff_C_mul, coeff_formal,
    coeff_formal]
  split
  · next hi =>
    rw [hi, ← coeff_formal divisor, ← getLastD_eq_coeff, List.getD_eq_getElem?_getD, htop,
      Option.getD_some]
    linear_combination -top * hlead
  · rw [List.getD_eq_default divisor _ (by omega), mul_zero, sub_zero]

/-! ### The division loop -/

/-- Where the divisor does not fit, the next coefficient joins the remainder. -/
theorem reduce_cons_of_short {divisor : List (Fp p)} {lead : Fp p} {c : Fp p} {cs : List (Fp p)}
    (h : (c :: (reduce divisor lead cs).2)[divisor.length - 1]? = none) :
    reduce divisor lead (c :: cs) =
      ((reduce divisor lead cs).1, c :: (reduce divisor lead cs).2) := by
  rw [reduce]
  dsimp only
  rw [h]

/-- Where it fits, one more multiple of it is taken off. -/
theorem reduce_cons_of_long {divisor : List (Fp p)} {lead : Fp p} {c : Fp p} {cs : List (Fp p)}
    {top : Fp p} (h : (c :: (reduce divisor lead cs).2)[divisor.length - 1]? = some top) :
    reduce divisor lead (c :: cs) =
      (top * lead :: (reduce divisor lead cs).1,
        updateWith (fun r d ↦ r - top * lead * d) (c :: (reduce divisor lead cs).2) divisor) := by
  rw [reduce]
  dsimp only
  rw [h]

/-- One coefficient of the quotient is produced for each coefficient of the dividend from the degree
of the divisor on, and the remainder is as long as the dividend. -/
theorem length_reduce {divisor : List (Fp p)} (hne : divisor ≠ []) (lead : Fp p)
    (cs : List (Fp p)) :
    (reduce divisor lead cs).1.length = cs.length - (divisor.length - 1) ∧
      (reduce divisor lead cs).2.length = cs.length := by
  have hpos : 0 < divisor.length := List.length_pos_iff.2 hne
  induction cs with
  | nil => simp [reduce]
  | cons c cs ih =>
    obtain ⟨hq, hr⟩ := ih
    cases h : (c :: (reduce divisor lead cs).2)[divisor.length - 1]? with
    | none =>
      rw [reduce_cons_of_short h]
      rw [List.getElem?_eq_none_iff] at h
      simp only [List.length_cons] at h ⊢
      exact ⟨by omega, by omega⟩
    | some top =>
      rw [reduce_cons_of_long h]
      have hlt := (List.getElem?_eq_some_iff.1 h).1
      simp only [List.length_cons, length_updateWith] at hlt ⊢
      exact ⟨by omega, by omega⟩

/-- **Quotient times divisor plus remainder is the dividend.** Induction on the coefficients, lowest
first: the ones above are divided already, and their remainder moves up by one place. -/
theorem formal_reduce {divisor : List (Fp p)} (hne : divisor ≠ []) (lead : Fp p)
    (cs : List (Fp p)) :
    formal cs = formal (reduce divisor lead cs).1 * formal divisor +
      formal (reduce divisor lead cs).2 := by
  have hpos : 0 < divisor.length := List.length_pos_iff.2 hne
  induction cs with
  | nil => simp [reduce]
  | cons c cs ih =>
    obtain ⟨hq, hr⟩ := length_reduce hne lead cs
    cases h : (c :: (reduce divisor lead cs).2)[divisor.length - 1]? with
    | none =>
      -- nothing has been divided so far
      have hnil : (reduce divisor lead cs).1 = [] := by
        rw [List.getElem?_eq_none_iff, List.length_cons] at h
        rw [← List.length_eq_zero_iff, hq]
        omega
      rw [reduce_cons_of_short h, hnil, formal_cons, ih, hnil, formal_nil, formal_cons]
      ring
    | some top =>
      have hlen : divisor.length ≤ (c :: (reduce divisor lead cs).2).length := by
        have := (List.getElem?_eq_some_iff.1 h).1
        omega
      rw [reduce_cons_of_long h, formal_updateWith_sub _ hlen, formal_cons, ih, formal_cons,
        formal_cons]
      ring

/-- **The remainder is zero from the degree of the divisor on.** Each step makes one more coefficient
zero, the lowest of these, and the ones above stay zero. -/
theorem getD_reduce_of_le {divisor : List (Fp p)} {lead : Fp p}
    (hlead : lead * divisor.getLastD 0 = 1) (hne : divisor ≠ []) (cs : List (Fp p)) {i : ℕ}
    (hi : divisor.length - 1 ≤ i) : (reduce divisor lead cs).2.getD i 0 = 0 := by
  induction cs generalizing i with
  | nil => rfl
  | cons c cs ih =>
    cases h : (c :: (reduce divisor lead cs).2)[divisor.length - 1]? with
    | none =>
      rw [reduce_cons_of_short h]
      exact List.getD_eq_default _ _ ((List.getElem?_eq_none_iff.1 h).trans hi)
    | some top =>
      rw [reduce_cons_of_long h, getD_updateWith_cancel hne hlead h hi]
      split
      · rfl
      · next hi' =>
        obtain ⟨j, rfl⟩ := Nat.exists_eq_succ_of_ne_zero (by omega : i ≠ 0)
        rw [List.getD_cons_succ]
        exact ih (by omega)

end Lists

variable {p : ℕ} [Fact p.Prime]

/-! ### Division of polynomials -/

/-- **Euclidean division.** A divisor other than zero is accepted, and the remainder has the length
of the dividend and a smaller degree than the divisor. -/
theorem divMod_spec (f : Poly p) {g : Poly p} (hg : g.toPolynomial ≠ 0) :
    ∃ q r, f.divMod g = .ok (q, r) ∧
      f.toPolynomial = q.toPolynomial * g.toPolynomial + r.toPolynomial ∧
      r.toPolynomial.degree < g.toPolynomial.degree ∧
      q.length = f.length - g.toPolynomial.natDegree ∧ r.length = f.length := by
  have hne : trim g.coeffs ≠ [] := trim_ne_nil hg
  have hlen : (trim g.coeffs).length = g.toPolynomial.natDegree + 1 := length_trim hg
  have hlast : (trim g.coeffs).getLastD 0 ≠ 0 := getLastD_trim_ne_zero hne
  have hlead : ((trim g.coeffs).getLastD 0)⁻¹ * (trim g.coeffs).getLastD 0 = 1 :=
    Fp.inv_mul_cancel hlast
  obtain ⟨hq, hr⟩ := length_reduce hne ((trim g.coeffs).getLastD 0)⁻¹ f.coeffs
  rw [hlen, Nat.add_sub_cancel] at hq
  refine ⟨⟨(reduce _ _ f.coeffs).1⟩, ⟨(reduce _ _ f.coeffs).2⟩, ?_, ?_, ?_, hq, hr⟩
  · rw [divMod, Fp.inverse_of_ne_zero hlast]
    rfl
  · rw [toPolynomial, formal_reduce hne _ f.coeffs, formal_trim, toPolynomial, toPolynomial,
      toPolynomial]
  · rw [toPolynomial, degree_eq_natDegree hg, degree_lt_iff_coeff_zero]
    intro i hi
    rw [coeff_formal]
    exact getD_reduce_of_le hlead hne f.coeffs (by rwa [hlen, Nat.add_sub_cancel])

/-- **A multiple of the divisor is divided exactly.** -/
theorem exactDiv_of_dvd {f g : Poly p} (hg : g.toPolynomial ≠ 0)
    (hdvd : g.toPolynomial ∣ f.toPolynomial) :
    ∃ q, f.exactDiv g = .ok q ∧ q.toPolynomial * g.toPolynomial = f.toPolynomial ∧
      q.length = f.length - g.toPolynomial.natDegree := by
  obtain ⟨q, r, hok, hdiv, hdeg, hq, -⟩ := divMod_spec f hg
  have hr : g.toPolynomial ∣ r.toPolynomial := by
    have hsub : r.toPolynomial = f.toPolynomial - q.toPolynomial * g.toPolynomial := by
      rw [hdiv]
      ring
    rw [hsub]
    exact dvd_sub hdvd (dvd_mul_left _ _)
  -- a remainder of smaller degree that is a multiple of the divisor is zero
  have hzero : r.toPolynomial = 0 := eq_zero_of_dvd_of_degree_lt hr hdeg
  refine ⟨q, ?_, ?_, hq⟩
  · rw [exactDiv, hok]
    show (if r.isZero then _ else _) = _
    rw [if_pos (r.isZero_iff.2 hzero)]
    rfl
  · rw [hdiv, hzero, add_zero]

/-- A divisor that is zero is refused. -/
theorem divMod_of_eq_zero (f : Poly p) {g : Poly p} (hg : g.toPolynomial = 0) :
    f.divMod g = .error .divisionByZero := by
  rw [divMod, trim_eq_nil hg, List.getLastD_nil, Fp.inverse_eq_error_iff.2 ⟨rfl, rfl⟩]
  rfl

theorem exactDiv_of_eq_zero (f : Poly p) {g : Poly p} (hg : g.toPolynomial = 0) :
    f.exactDiv g = .error .divisionByZero := by
  rw [exactDiv, divMod_of_eq_zero f hg]
  rfl

/-- **And nothing else is.** -/
theorem exactDiv_of_not_dvd {f g : Poly p} (hg : g.toPolynomial ≠ 0)
    (hdvd : ¬ g.toPolynomial ∣ f.toPolynomial) : f.exactDiv g = .error .notDivisible := by
  obtain ⟨q, r, hok, hdiv, -⟩ := divMod_spec f hg
  have hzero : ¬ r.isZero = true := by
    rw [isZero_iff]
    intro hr
    exact hdvd ⟨q.toPolynomial, by rw [hdiv, hr]; ring⟩
  rw [exactDiv, hok]
  show (if r.isZero then _ else _) = _
  rw [if_neg hzero]
  rfl

/-- **A quotient times the divisor is the dividend**, for every divisor. -/
theorem mul_eq_of_exactDiv {f g q : Poly p} (h : f.exactDiv g = .ok q) :
    q.toPolynomial * g.toPolynomial = f.toPolynomial := by
  by_cases hg : g.toPolynomial = 0
  · rw [exactDiv_of_eq_zero f hg] at h
    exact nomatch h
  · by_cases hdvd : g.toPolynomial ∣ f.toPolynomial
    · obtain ⟨q', hq', hmul, -⟩ := exactDiv_of_dvd hg hdvd
      exact Except.ok.inj (hq'.symm.trans h) ▸ hmul
    · rw [exactDiv_of_not_dvd hg hdvd] at h
      exact nomatch h

end SuccinctProof.Poly
