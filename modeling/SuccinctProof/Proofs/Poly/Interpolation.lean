import Mathlib.Algebra.BigOperators.Ring.List
import Mathlib.Algebra.Polynomial.Roots
import SuccinctProof.Poly.Interpolation
import SuccinctProof.Proofs.Poly.Formal
import SuccinctProof.Proofs.Refusal

/-!
# Interpolation

The product of the linear factors of some roots (`ofRoots`) has one coefficient more than there are
roots, and for distinct roots it divides exactly the polynomials that vanish at all of them
(`toPolynomial_ofRoots_dvd_iff`). The vanishing polynomial of `1, …, n` is such a product, since the
numbers below the modulus are distinct residues.

A list of polynomials is a *Lagrange basis* of some nodes when polynomial `i` is one at node `i` and
zero at the others (`IsLagrangeBasis`). Combining a basis with a list of values gives the polynomial
with these values at the nodes, and `exists_lagrangeBasis` says that distinct nodes have one.
-/

open Polynomial

namespace SuccinctProof.Poly

/-! ### Products of linear factors -/

section Roots

variable {p : ℕ} [Modulus p]

theorem ofRoots_cons (a : Fp p) (roots : List (Fp p)) :
    ofRoots (a :: roots) = linear a * ofRoots roots := rfl

theorem toPolynomial_ofRoots (roots : List (Fp p)) :
    (ofRoots roots).toPolynomial = (roots.map fun a ↦ X - C a).prod := by
  induction roots with
  | nil => exact toPolynomial_one
  | cons a roots ih => rw [ofRoots_cons, toPolynomial_mul, toPolynomial_linear, ih,
      List.map_cons, List.prod_cons]

theorem eval_ofRoots (roots : List (Fp p)) (x : Fp p) :
    (ofRoots roots).eval x = (roots.map (x - ·)).prod := by
  induction roots with
  | nil => exact eval_one x
  | cons a roots ih => rw [ofRoots_cons, eval_mul, eval_linear, ih, List.map_cons, List.prod_cons]

/-- One coefficient more than there are roots. -/
theorem length_ofRoots (roots : List (Fp p)) : (ofRoots roots).length = roots.length + 1 := by
  induction roots with
  | nil => rfl
  | cons a roots ih =>
    have hlinear : (linear a).length = 2 := rfl
    rw [ofRoots_cons, length_mul (by omega) (by omega), ih, hlinear, List.length_cons]
    omega

theorem monic_ofRoots (roots : List (Fp p)) : (ofRoots roots).toPolynomial.Monic := by
  induction roots with
  | nil => exact toPolynomial_one (p := p) ▸ monic_one
  | cons a roots ih =>
    rw [ofRoots_cons, toPolynomial_mul, toPolynomial_linear]
    exact (monic_X_sub_C a).mul ih

@[simp] theorem length_nodes (n : ℕ) : (nodes n : List (Fp p)).length = n := by
  rw [nodes, List.length_map, List.length_range']

theorem getElem_nodes {n i : ℕ} (hi : i < (nodes n : List (Fp p)).length) :
    (nodes n : List (Fp p))[i] = ((i + 1 : ℕ) : Fp p) := by
  simp only [nodes, List.getElem_map, List.getElem_range', one_mul, Fp.ofNat_eq_natCast]
  rw [add_comm]

theorem mem_nodes_iff {n : ℕ} {x : Fp p} :
    x ∈ (nodes n : List (Fp p)) ↔ ∃ i : ℕ, (1 ≤ i ∧ i ≤ n) ∧ (i : Fp p) = x := by
  rw [nodes, List.mem_map]
  simp only [List.mem_range'_1, Fp.ofNat_eq_natCast, Nat.add_comm 1 n, Nat.lt_succ_iff]

/-- Below the modulus the nodes are distinct. -/
theorem nodup_nodes {n : ℕ} (hn : n < p) : (nodes n : List (Fp p)).Nodup := by
  refine List.Nodup.map_on ?_ List.nodup_range'
  intro i hi j hj h
  rw [List.mem_range'_1] at hi hj
  exact (Fp.natCast_inj_of_lt (by omega) (by omega)).1 h

end Roots

section Prime

variable {p : ℕ} [Fact p.Prime]

theorem toPolynomial_ofRoots_ne_zero (roots : List (Fp p)) : (ofRoots roots).toPolynomial ≠ 0 :=
  (monic_ofRoots roots).ne_zero

@[simp] theorem natDegree_ofRoots (roots : List (Fp p)) :
    (ofRoots roots).toPolynomial.natDegree = roots.length := by
  rw [toPolynomial_ofRoots]
  exact natDegree_multiset_prod_X_sub_C_eq_card (roots : Multiset (Fp p))

/-- **Distinct roots are roots of exactly the multiples of their factors.** -/
theorem toPolynomial_ofRoots_dvd_iff {roots : List (Fp p)} (h : roots.Nodup) (f : (Fp p)[X]) :
    (ofRoots roots).toPolynomial ∣ f ↔ ∀ a ∈ roots, f.eval a = 0 := by
  rw [toPolynomial_ofRoots]
  induction roots generalizing f with
  | nil => simp
  | cons a roots ih =>
    rw [List.nodup_cons] at h
    rw [List.map_cons, List.prod_cons, List.forall_mem_cons]
    constructor
    · intro hdvd
      exact ⟨dvd_iff_isRoot.1 ((dvd_mul_right _ _).trans hdvd),
        (ih h.2 f).1 ((dvd_mul_left _ _).trans hdvd)⟩
    · rintro ⟨ha, hroots⟩
      obtain ⟨g, rfl⟩ := dvd_iff_isRoot.2 ha
      refine mul_dvd_mul_left _ ((ih h.2 g).2 fun b hb ↦ ?_)
      -- the factor of `a` does not vanish at another root
      have hb0 := hroots b hb
      rw [Polynomial.eval_mul, Polynomial.eval_sub, eval_X, eval_C] at hb0
      refine (mul_eq_zero.1 hb0).resolve_left (sub_ne_zero.2 ?_)
      rintro rfl
      exact h.1 hb

/-- **With as many roots as coefficients, a polynomial is zero.** -/
theorem toPolynomial_eq_zero {roots : List (Fp p)} (h : roots.Nodup) {f : Poly p}
    (hlen : f.length ≤ roots.length) (heval : ∀ a ∈ roots, f.eval a = 0) : f.toPolynomial = 0 := by
  refine eq_zero_of_dvd_of_degree_lt ((toPolynomial_ofRoots_dvd_iff h _).2 fun a ha ↦ ?_) ?_
  · rw [eval_toPolynomial, heval a ha]
  · rw [degree_eq_natDegree (toPolynomial_ofRoots_ne_zero _), natDegree_ofRoots]
    exact (degree_formal_lt _).trans_le (Nat.cast_le.2 hlen)

/-- **A polynomial with a coefficient for each node is determined by its values at the nodes.** -/
theorem eq_of_eval_eq {nodes : List (Fp p)} (h : nodes.Nodup) {f g : Poly p}
    (hf : f.length = nodes.length) (hg : g.length = nodes.length)
    (heval : ∀ a ∈ nodes, f.eval a = g.eval a) : f = g := by
  refine eq_of_toPolynomial_eq (hf.trans hg.symm) (sub_eq_zero.1 ?_)
  have hsub : (f - g).toPolynomial = 0 := by
    refine toPolynomial_eq_zero h (by rw [length_sub, hf, hg, max_self]) fun a ha ↦ ?_
    rw [eval_sub, heval a ha, sub_self]
  rwa [toPolynomial_sub] at hsub

/-- **Coefficients that are fewer than the modulus are read off the values away from zero**: if all
these values are zero, so are the coefficients. -/
theorem coeffs_eq_zero {cs : List (Fp p)} (hlen : cs.length < p)
    (h : ∀ y : Fp p, y ≠ 0 → (⟨cs⟩ : Poly p).eval y = 0) : ∀ c ∈ cs, c = 0 := by
  rw [← formal_eq_zero_iff]
  refine toPolynomial_eq_zero (f := ⟨cs⟩) (nodup_nodes hlen) (length_nodes _).ge fun a ha ↦ ?_
  obtain ⟨i, hi, rfl⟩ := List.getElem_of_mem ha
  rw [getElem_nodes hi]
  rw [length_nodes] at hi
  refine h _ fun hzero ↦ ?_
  rw [← Nat.cast_zero, Fp.natCast_inj_of_lt (by omega) (by omega)] at hzero
  exact Nat.succ_ne_zero i hzero

/-! ### The vanishing polynomial -/

theorem prod_sub_eq_zero_iff {x : Fp p} {others : List (Fp p)} :
    (others.map (x - ·)).prod = 0 ↔ x ∈ others := by
  simp [List.prod_eq_zero_iff, sub_eq_zero]

@[simp] theorem length_vanishing (n : ℕ) : (vanishing n : Poly p).length = n + 1 := by
  rw [vanishing, length_ofRoots, length_nodes]

@[simp] theorem natDegree_vanishing (n : ℕ) :
    (vanishing n : Poly p).toPolynomial.natDegree = n := by
  rw [vanishing, natDegree_ofRoots, length_nodes]

theorem toPolynomial_vanishing_ne_zero (n : ℕ) : (vanishing n : Poly p).toPolynomial ≠ 0 :=
  toPolynomial_ofRoots_ne_zero _

/-- **The roots of a vanishing polynomial are its numbers.** -/
theorem eval_vanishing_eq_zero_iff {n : ℕ} {x : Fp p} :
    (vanishing n).eval x = 0 ↔ ∃ i : ℕ, (1 ≤ i ∧ i ≤ n) ∧ (i : Fp p) = x := by
  rw [vanishing, eval_ofRoots, prod_sub_eq_zero_iff, mem_nodes_iff]

/-- Below the modulus a number is told from its residue. -/
theorem eval_vanishing_natCast_eq_zero_iff {n k : ℕ} (hn : n < p) (hk : k < p) :
    (vanishing n).eval (k : Fp p) = 0 ↔ 1 ≤ k ∧ k ≤ n := by
  rw [eval_vanishing_eq_zero_iff]
  constructor
  · rintro ⟨i, hi, heq⟩
    obtain rfl := (Fp.natCast_inj_of_lt (by omega) hk).1 heq
    exact hi
  · exact fun h ↦ ⟨k, h, rfl⟩

/-- **Below the modulus the vanishing polynomial divides what vanishes at its numbers.** -/
theorem toPolynomial_vanishing_dvd_iff {n : ℕ} (hn : n < p) (f : Poly p) :
    (vanishing n).toPolynomial ∣ f.toPolynomial ↔
      ∀ i : ℕ, 1 ≤ i → i ≤ n → f.eval (i : Fp p) = 0 := by
  rw [vanishing, toPolynomial_ofRoots_dvd_iff (nodup_nodes hn)]
  simp only [eval_toPolynomial, mem_nodes_iff]
  constructor
  · intro h i hpos hle
    exact h i ⟨i, ⟨hpos, hle⟩, rfl⟩
  · rintro h _ ⟨i, ⟨hpos, hle⟩, rfl⟩
    exact h i hpos hle

/-! ### One basis polynomial -/

/-- A selection splits the list into an element and the others. -/
theorem perm_of_mem_selections {α : Type} {l : List α} {a : α} {others : List α}
    (h : (a, others) ∈ selections l) : l.Perm (a :: others) := by
  induction l generalizing a others with
  | nil => exact absurd h List.not_mem_nil
  | cons b l ih =>
    rw [selections] at h
    rcases List.mem_cons.1 h with h | h
    · cases h
      exact .refl _
    · obtain ⟨⟨c, cs⟩, hc, h⟩ := List.mem_map.1 h
      cases h
      exact ((ih hc).cons b).trans (.swap _ _ _)

/-- Every element is selected, in order. -/
theorem map_fst_selections {α : Type} (l : List α) : (selections l).map Prod.fst = l := by
  induction l with
  | nil => rfl
  | cons a l ih =>
    rw [selections, List.map_cons, List.map_map]
    exact congrArg (a :: ·) ih

/-- The polynomial that is one at `node` and zero at `others`, when `node` is not among them. -/
def lagrangeAt (node : Fp p) (others : List (Fp p)) : Poly p :=
  (ofRoots others).scale ((others.map (node - ·)).prod)⁻¹

theorem lagrange_eq_ok {node : Fp p} {others : List (Fp p)} (h : node ∉ others) :
    lagrange node others = .ok (lagrangeAt node others) := by
  rw [lagrange, Fp.inverse_of_ne_zero (mt prod_sub_eq_zero_iff.1 h)]
  rfl

/-- **One at its own node, zero at the others.** -/
theorem eval_lagrangeAt {node x : Fp p} {others : List (Fp p)} (h : node ∉ others)
    (hx : x ∈ node :: others) : (lagrangeAt node others).eval x = if x = node then 1 else 0 := by
  rw [lagrangeAt, eval_scale, eval_ofRoots]
  split
  · next heq => rw [heq, Fp.mul_inv_cancel (mt prod_sub_eq_zero_iff.1 h)]
  · next hne =>
    rw [prod_sub_eq_zero_iff.2 ((List.mem_cons.1 hx).resolve_left hne), zero_mul]

/-! ### The basis -/

/-- Polynomials of which each is one at the node with its position, zero at the other nodes, and
has one coefficient for each node. -/
structure IsLagrangeBasis (nodes : List (Fp p)) (basis : List (Poly p)) : Prop where
  /-- There is one polynomial for each node. -/
  length_eq : basis.length = nodes.length
  /-- Every polynomial has one coefficient for each node. -/
  length_of_mem : ∀ f ∈ basis, f.length = nodes.length
  /-- At a node, the values are zero but for a one at its position. -/
  map_eval : ∀ i, (hi : i < nodes.length) →
    basis.map (·.eval nodes[i]) = (List.replicate nodes.length 0).set i 1

theorem lagrangeBasis_eq_ok {nodes : List (Fp p)} (h : ∀ s ∈ selections nodes, s.1 ∉ s.2) :
    lagrangeBasis nodes = .ok ((selections nodes).map fun s ↦ lagrangeAt s.1 s.2) := by
  rw [lagrangeBasis]
  exact mapM_eq_ok fun s hs ↦ lagrange_eq_ok (h s hs)

/-- At node `i` the only basis polynomial that does not vanish is the one at position `i`. -/
theorem map_eval_selections {nodes : List (Fp p)} (hnodup : nodes.Nodup)
    (h : ∀ s ∈ selections nodes, s.1 ∉ s.2) {i : ℕ} (hi : i < nodes.length) :
    (selections nodes).map (fun s ↦ (lagrangeAt s.1 s.2).eval nodes[i]) =
      (List.replicate nodes.length 0).set i 1 := by
  -- polynomial by polynomial, the value at a node is one when it is the own node
  have heval : ∀ x ∈ nodes, (selections nodes).map (fun s ↦ (lagrangeAt s.1 s.2).eval x) =
      nodes.map fun a ↦ if x = a then 1 else 0 := by
    intro x hx
    conv_rhs => rw [← map_fst_selections nodes, List.map_map]
    refine List.map_congr_left fun s hs ↦ ?_
    exact eval_lagrangeAt (h s hs) ((perm_of_mem_selections hs).mem_iff.1 hx)
  rw [heval _ (List.getElem_mem hi)]
  refine List.ext_getElem (by simp) fun j hj _ ↦ ?_
  rw [List.length_map] at hj
  rw [List.getElem_map, List.getElem_set, List.getElem_replicate]
  simp only [hnodup.getElem_inj_iff]

/-- **Distinct nodes have a basis.** -/
theorem exists_lagrangeBasis {nodes : List (Fp p)} (h : nodes.Nodup) :
    ∃ basis, lagrangeBasis nodes = .ok basis ∧ IsLagrangeBasis nodes basis := by
  have hnot : ∀ s ∈ selections nodes, s.1 ∉ s.2 := fun s hs ↦
    (List.nodup_cons.1 ((perm_of_mem_selections hs).nodup_iff.1 h)).1
  refine ⟨_, lagrangeBasis_eq_ok hnot, ?_, ?_, ?_⟩
  · rw [List.length_map, ← List.length_map (f := Prod.fst), map_fst_selections]
  · intro f hf
    obtain ⟨s, hs, rfl⟩ := List.mem_map.1 hf
    rw [lagrangeAt, length_scale, length_ofRoots, (perm_of_mem_selections hs).length_eq,
      List.length_cons]
  · intro i hi
    rw [List.map_map]
    exact map_eval_selections h hnot hi

namespace IsLagrangeBasis

variable {nodes : List (Fp p)} {basis : List (Poly p)}

/-- **A combination of the basis takes the weights as its values at the nodes.** -/
theorem eval_combine (hb : IsLagrangeBasis nodes basis) {values : List (Fp p)} {i : ℕ}
    (hi : i < nodes.length) (hv : i < values.length) :
    (combine values basis).eval nodes[i] = values[i] := by
  rw [Poly.eval_combine, hb.map_eval i hi, dot_comm, dot_set_zero 1 hi hv, one_mul]

theorem length_combine (hb : IsLagrangeBasis nodes basis) (values : List (Fp p)) :
    (combine values basis).length = nodes.length := by
  rw [Poly.length_combine]
  rcases eq_or_ne basis [] with rfl | hne
  · rw [← hb.length_eq]
    rfl
  · exact maxLength_eq hne hb.length_of_mem

end IsLagrangeBasis

end Prime

end SuccinctProof.Poly
