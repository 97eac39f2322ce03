import Mathlib.Algebra.Polynomial.Degree.Lemmas
import Mathlib.Algebra.Polynomial.Eval.Degree
import Mathlib.Data.List.GetD
import Mathlib.Tactic.LinearCombination
import Mathlib.Tactic.Ring
import SuccinctProof.Poly.Basic
import SuccinctProof.Proofs.Dot

/-!
# Coefficient lists and formal polynomials

`Poly.toPolynomial` forgets the length of a coefficient list and keeps the formal polynomial. It
carries every operation on lists to the operation of the same name, and evaluation to evaluation.

What it forgets is supplied by the lengths: two lists of the same length with the same formal
polynomial are equal (`formal_inj`). So an equation between lists is an equation of formal
polynomials together with one of lengths, and each operation has a lemma for both.
-/

open Polynomial

namespace SuccinctProof.Poly

variable {p : ℕ} [Modulus p]

/-! ### The formal polynomial of a list -/

/-- The formal polynomial of a coefficient list. -/
noncomputable def formal : List (Fp p) → (Fp p)[X]
  | [] => 0
  | c :: cs => C c + X * formal cs

/-- The formal polynomial behind a coefficient list with its length. -/
noncomputable def toPolynomial (f : Poly p) : (Fp p)[X] := formal f.coeffs

@[simp] theorem formal_nil : formal ([] : List (Fp p)) = 0 := rfl

theorem formal_cons (c : Fp p) (cs : List (Fp p)) : formal (c :: cs) = C c + X * formal cs := rfl

/-- **Entry `i` is the coefficient of the `i`-th power.** -/
theorem coeff_formal (cs : List (Fp p)) (i : ℕ) : (formal cs).coeff i = cs.getD i 0 := by
  induction cs generalizing i with
  | nil => simp
  | cons c cs ih =>
    cases i with
    | zero => simp [formal_cons]
    | succ i => simp [formal_cons, coeff_C_succ, ih]

/-- A list has no coefficient beyond its length. -/
theorem degree_formal_lt (cs : List (Fp p)) : (formal cs).degree < cs.length := by
  rw [degree_lt_iff_coeff_zero]
  intro i hi
  rw [coeff_formal, List.getD_eq_default _ _ hi]

/-- **The length is all that a formal polynomial forgets.** -/
theorem formal_inj {as bs : List (Fp p)} (hlen : as.length = bs.length)
    (h : formal as = formal bs) : as = bs := by
  refine List.ext_getElem hlen fun i ha hb ↦ ?_
  have hi := congrArg (coeff · i) h
  simp only [coeff_formal] at hi
  rwa [List.getD_eq_getElem _ _ ha, List.getD_eq_getElem _ _ hb] at hi

/-- Polynomials of one length are told apart by their formal polynomials. -/
theorem eq_of_toPolynomial_eq {f g : Poly p} (hlen : f.length = g.length)
    (h : f.toPolynomial = g.toPolynomial) : f = g :=
  Poly.ext (formal_inj hlen h)

theorem formal_append (as bs : List (Fp p)) :
    formal (as ++ bs) = formal as + X ^ as.length * formal bs := by
  induction as with
  | nil => simp
  | cons a as ih =>
    rw [List.cons_append, formal_cons, ih, formal_cons, List.length_cons]
    ring

@[simp] theorem formal_replicate_zero (n : ℕ) : formal (List.replicate n (0 : Fp p)) = 0 := by
  induction n with
  | zero => rfl
  | succ n ih => simp [List.replicate_succ, formal_cons, ih]

/-- Only a list of zeros is the zero polynomial. -/
theorem formal_eq_zero_iff {cs : List (Fp p)} : formal cs = 0 ↔ ∀ c ∈ cs, c = 0 := by
  rw [← formal_replicate_zero cs.length]
  refine ⟨fun h c hc ↦ ?_, fun h ↦ congrArg formal (List.eq_replicate_of_mem h)⟩
  have hcs := formal_inj (List.length_replicate ..).symm h
  rw [hcs] at hc
  exact List.eq_of_mem_replicate hc

theorem isZero_iff (f : Poly p) : f.isZero = true ↔ f.toPolynomial = 0 := by
  rw [toPolynomial, formal_eq_zero_iff, isZero, List.all_eq_true]
  simp

/-! ### The operations -/

theorem formal_map_mul_right (cs : List (Fp p)) (s : Fp p) :
    formal (cs.map (· * s)) = formal cs * C s := by
  induction cs with
  | nil => simp
  | cons c cs ih => rw [List.map_cons, formal_cons, ih, formal_cons, C_mul]; ring

theorem formal_map_mul_left (cs : List (Fp p)) (s : Fp p) :
    formal (cs.map (s * ·)) = C s * formal cs := by
  simp only [mul_comm s, formal_map_mul_right, mul_comm (C s)]

theorem formal_alignWith_add (as bs : List (Fp p)) :
    formal (alignWith (· + ·) as bs) = formal as + formal bs := by
  fun_induction alignWith (· + ·) as bs with
  | case1 bs => simp
  | case2 as _ => simp
  | case3 a as b bs ih => rw [formal_cons, ih, formal_cons, formal_cons, C_add]; ring

theorem formal_map_neg (cs : List (Fp p)) : formal (cs.map (-·)) = -formal cs := by
  induction cs with
  | nil => simp
  | cons c cs ih => rw [List.map_cons, formal_cons, ih, formal_cons, C_neg]; ring

theorem formal_alignWith_sub (as bs : List (Fp p)) :
    formal (alignWith (· - ·) as bs) = formal as - formal bs := by
  fun_induction alignWith (· - ·) as bs with
  | case1 bs => simp [formal_map_neg]
  | case2 as _ => simp
  | case3 a as b bs ih => rw [formal_cons, ih, formal_cons, formal_cons, C_sub]; ring

/-- A multiple of a list that fits into a buffer is added to it. -/
theorem formal_updateWith_add (w : Fp p) {buffer cs : List (Fp p)}
    (h : cs.length ≤ buffer.length) :
    formal (updateWith (fun b c ↦ b + w * c) buffer cs) = formal buffer + C w * formal cs := by
  induction buffer generalizing cs with
  | nil =>
    obtain rfl := List.length_eq_zero_iff.1 (Nat.le_zero.1 h)
    simp [updateWith]
  | cons b buffer ih =>
    cases cs with
    | nil => simp [updateWith]
    | cons c cs =>
      rw [updateWith, formal_cons, ih (Nat.le_of_succ_le_succ h), formal_cons, formal_cons, C_add,
        C_mul]
      ring

/-- And one that is taken off is subtracted. -/
theorem formal_updateWith_sub (k : Fp p) {buffer cs : List (Fp p)}
    (h : cs.length ≤ buffer.length) :
    formal (updateWith (fun b c ↦ b - k * c) buffer cs) = formal buffer - C k * formal cs := by
  have hop : (fun b c : Fp p ↦ b - k * c) = fun b c ↦ b + -k * c := by
    funext b c
    ring
  rw [hop, formal_updateWith_add _ h, C_neg]
  ring

/-- The product of lists is the sum of the shifted multiples of its second factor. -/
theorem formal_mulCoeffs (as bs : List (Fp p)) :
    formal (mulCoeffs as bs) = formal as * formal bs := by
  induction as with
  | nil => simp [mulCoeffs]
  | cons a as ih =>
    rw [mulCoeffs, formal_alignWith_add, formal_map_mul_left, formal_cons, ih, formal_cons, C_0]
    ring

@[simp] theorem toPolynomial_zero : (0 : Poly p).toPolynomial = 0 := rfl

@[simp] theorem toPolynomial_one : (1 : Poly p).toPolynomial = 1 := by
  show C 1 + X * 0 = 1
  simp

@[simp] theorem toPolynomial_linear (a : Fp p) : (linear a).toPolynomial = X - C a := by
  show C (-a) + X * (C 1 + X * 0) = _
  rw [C_neg, C_1]
  ring

@[simp] theorem toPolynomial_add (f g : Poly p) :
    (f + g).toPolynomial = f.toPolynomial + g.toPolynomial :=
  formal_alignWith_add _ _

@[simp] theorem toPolynomial_sub (f g : Poly p) :
    (f - g).toPolynomial = f.toPolynomial - g.toPolynomial :=
  formal_alignWith_sub _ _

@[simp] theorem toPolynomial_scale (f : Poly p) (s : Fp p) :
    (f.scale s).toPolynomial = f.toPolynomial * C s :=
  formal_map_mul_right _ _

@[simp] theorem toPolynomial_mul (f g : Poly p) :
    (f * g).toPolynomial = f.toPolynomial * g.toPolynomial := by
  show toPolynomial (if g.isEmpty then 0 else _) = _
  split
  · next h =>
    rw [isEmpty, List.isEmpty_iff] at h
    rw [toPolynomial_zero, toPolynomial, toPolynomial, h, formal_nil, mul_zero]
  · exact formal_mulCoeffs _ _

/-! ### Evaluation -/

theorem eval_formal (cs : List (Fp p)) (x : Fp p) :
    (formal cs).eval x = cs.foldr (fun c value ↦ c + x * value) 0 := by
  induction cs with
  | nil => simp
  | cons c cs ih => simp [formal_cons, ih]

/-- **Evaluation from the highest coefficient down is evaluation.** -/
theorem eval_toPolynomial (f : Poly p) (x : Fp p) : f.toPolynomial.eval x = f.eval x :=
  eval_formal _ _

@[simp] theorem eval_one (x : Fp p) : (1 : Poly p).eval x = 1 := by
  rw [← eval_toPolynomial, toPolynomial_one, Polynomial.eval_one]

@[simp] theorem eval_linear (a x : Fp p) : (linear a).eval x = x - a := by
  rw [← eval_toPolynomial, toPolynomial_linear, eval_sub, eval_X, eval_C]

@[simp] theorem eval_add (f g : Poly p) (x : Fp p) : (f + g).eval x = f.eval x + g.eval x := by
  simp only [← eval_toPolynomial, toPolynomial_add, Polynomial.eval_add]

@[simp] theorem eval_sub (f g : Poly p) (x : Fp p) : (f - g).eval x = f.eval x - g.eval x := by
  simp only [← eval_toPolynomial, toPolynomial_sub, Polynomial.eval_sub]

@[simp] theorem eval_mul (f g : Poly p) (x : Fp p) : (f * g).eval x = f.eval x * g.eval x := by
  simp only [← eval_toPolynomial, toPolynomial_mul, Polynomial.eval_mul]

@[simp] theorem eval_scale (f : Poly p) (s x : Fp p) : (f.scale s).eval x = f.eval x * s := by
  simp only [← eval_toPolynomial, toPolynomial_scale, Polynomial.eval_mul, eval_C]

/-! ### Linear combinations -/

@[simp] theorem toPolynomial_zeros (n : ℕ) : (zeros n : Poly p).toPolynomial = 0 :=
  formal_replicate_zero n

omit [Modulus p] in
theorem length_le_maxLength {f : Poly p} {fs : List (Poly p)} (hf : f ∈ fs) :
    f.length ≤ maxLength fs := by
  induction fs with
  | nil => exact absurd hf List.not_mem_nil
  | cons g gs ih =>
    rcases List.mem_cons.1 hf with rfl | hf'
    · exact Nat.le_max_left _ _
    · exact (ih hf').trans (Nat.le_max_right _ _)

omit [Modulus p] in
theorem maxLength_le {n : ℕ} {fs : List (Poly p)} (h : ∀ f ∈ fs, f.length ≤ n) :
    maxLength fs ≤ n := by
  induction fs with
  | nil => exact Nat.zero_le n
  | cons f fs ih =>
    exact Nat.max_le.2 ⟨h f List.mem_cons_self, ih fun g hg ↦ h g (List.mem_cons_of_mem _ hg)⟩

omit [Modulus p] in
/-- When all polynomials have one length, that is the length of the longest. -/
theorem maxLength_eq {n : ℕ} {fs : List (Poly p)} (hne : fs ≠ []) (h : ∀ f ∈ fs, f.length = n) :
    maxLength fs = n := by
  refine Nat.le_antisymm (maxLength_le fun f hf ↦ (h f hf).le) ?_
  obtain ⟨f, hf⟩ := List.exists_mem_of_ne_nil fs hne
  exact (h f hf).symm.trans_le (length_le_maxLength hf)

/-- **One step in the buffer is one addition**, of a multiple that is no longer than the buffer. -/
theorem addMultiple_eq_add_scale {buffer : List (Fp p)} (w : Fp p) {f : Poly p}
    (h : f.length ≤ buffer.length) :
    (⟨addMultiple buffer w f⟩ : Poly p) = ⟨buffer⟩ + f.scale w := by
  refine eq_of_toPolynomial_eq ?_ ?_
  · rw [length_add, length_scale, length, length_addMultiple, length, max_eq_left h]
  · rw [toPolynomial_add, toPolynomial_scale, toPolynomial, addMultiple]
    split
    · next hw => rw [hw, C_0, mul_zero, add_zero, toPolynomial]
    · rw [formal_updateWith_add w h, mul_comm, toPolynomial, toPolynomial]

/-- **The buffer is filled as sums are formed.** Induction on the pairs; the buffer keeps its length,
so every polynomial still fits. -/
theorem foldl_addMultiple (pairs : List (Fp p × Poly p)) {buffer : List (Fp p)}
    (h : ∀ wf ∈ pairs, wf.2.length ≤ buffer.length) :
    (⟨pairs.foldl (fun buffer wf ↦ addMultiple buffer wf.1 wf.2) buffer⟩ : Poly p) =
      pairs.foldl (fun acc wf ↦ acc + wf.2.scale wf.1) ⟨buffer⟩ := by
  induction pairs generalizing buffer with
  | nil => rfl
  | cons wf pairs ih =>
    obtain ⟨hhead, htail⟩ := List.forall_mem_cons.1 h
    rw [List.foldl_cons, List.foldl_cons, ih, addMultiple_eq_add_scale wf.1 hhead]
    rwa [length_addMultiple]

/-- **A combination is the sum of the scaled polynomials**, added one after the other to zeros. -/
theorem combine_eq_foldl_add (ws : List (Fp p)) (fs : List (Poly p)) :
    combine ws fs = (ws.zipWith (fun w f ↦ f.scale w) fs).foldl (· + ·) (zeros (maxLength fs)) := by
  have hzip : ws.zipWith (fun w f ↦ f.scale w) fs = (ws.zip fs).map fun wf ↦ wf.2.scale wf.1 :=
    (List.map_zip_eq_zipWith (f := fun wf : Fp p × Poly p ↦ wf.2.scale wf.1)).symm
  rw [hzip, List.foldl_map, combine, foldl_addMultiple, zeros]
  intro wf hwf
  rw [List.length_replicate]
  exact length_le_maxLength (List.of_mem_zip hwf).2

/-- What polynomials add to an accumulator. -/
theorem toPolynomial_foldl_add (fs : List (Poly p)) (acc : Poly p) :
    (fs.foldl (· + ·) acc).toPolynomial = acc.toPolynomial + (fs.map toPolynomial).sum := by
  induction fs generalizing acc with
  | nil => simp
  | cons f fs ih =>
    rw [List.foldl_cons, ih, List.map_cons, List.sum_cons, ← add_assoc, toPolynomial_add]

/-- The formal polynomial of a combination is the weighted sum, as far as both lists go. -/
theorem toPolynomial_combine (ws : List (Fp p)) (fs : List (Poly p)) :
    (combine ws fs).toPolynomial =
      (ws.zipWith (fun w f ↦ f.toPolynomial * C w) fs).sum := by
  rw [combine_eq_foldl_add, toPolynomial_foldl_add, toPolynomial_zeros, zero_add, List.map_zipWith]
  simp only [toPolynomial_scale]

/-- **The value of a combination is the dot product of the weights with the values.** -/
theorem eval_combine (ws : List (Fp p)) (fs : List (Poly p)) (x : Fp p) :
    (combine ws fs).eval x = dot ws (fs.map (·.eval x)) := by
  rw [← eval_toPolynomial, toPolynomial_combine, eval_listSum, List.map_zipWith, dot,
    List.zipWith_map_right]
  simp only [Polynomial.eval_mul, eval_C, eval_toPolynomial, mul_comm]

/-- The buffer keeps its length. -/
theorem length_foldl_addMultiple (pairs : List (Fp p × Poly p)) (buffer : List (Fp p)) :
    (pairs.foldl (fun buffer wf ↦ addMultiple buffer wf.1 wf.2) buffer).length =
      buffer.length := by
  induction pairs generalizing buffer with
  | nil => rfl
  | cons wf pairs ih => rw [List.foldl_cons, ih, length_addMultiple]

/-- A combination is as long as the longest polynomial, whatever the weights are. -/
@[simp] theorem length_combine (ws : List (Fp p)) (fs : List (Poly p)) :
    (combine ws fs).length = maxLength fs := by
  rw [length, combine, length_foldl_addMultiple, List.length_replicate]

/-! ### The length of a product -/

theorem length_mulCoeffs {as bs : List (Fp p)} (ha : as ≠ []) (hb : bs ≠ []) :
    (mulCoeffs as bs).length = as.length + bs.length - 1 := by
  have hb' : 0 < bs.length := List.length_pos_iff.2 hb
  induction as with
  | nil => exact absurd rfl ha
  | cons a as ih =>
    rw [mulCoeffs, length_alignWith, List.length_map, List.length_cons, List.length_cons]
    rcases eq_or_ne as [] with rfl | has
    · simp only [mulCoeffs, List.length_nil]
      omega
    · rw [ih has]
      omega

/-- A product of nonempty lists has one coefficient less than both together. -/
theorem length_mul {f g : Poly p} (hf : f.length ≠ 0) (hg : g.length ≠ 0) :
    (f * g).length = f.length + g.length - 1 := by
  have hf' : f.coeffs ≠ [] := fun h ↦ hf (by rw [length, h, List.length_nil])
  have hg' : g.coeffs ≠ [] := fun h ↦ hg (by rw [length, h, List.length_nil])
  show (if g.isEmpty then (0 : Poly p) else ⟨mulCoeffs f.coeffs g.coeffs⟩).length = _
  rw [if_neg (by rwa [isEmpty, List.isEmpty_iff])]
  exact length_mulCoeffs hf' hg'

end SuccinctProof.Poly
