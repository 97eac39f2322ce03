import SuccinctProof.Proofs.Poly.Interpolation

/-!
# The interpolating polynomial

`IsInterpolant` describes the polynomial through some points without computing it: one coefficient
for each point, and the second coordinates as its values at the first ones. When no first coordinate
is repeated there is at most one such polynomial (`IsInterpolant.unique`), and `Poly.interpolate`
finds it (`exists_isInterpolant`). Repeated first coordinates are refused, whether the second
coordinates agree or not (`interpolate_eq_error_iff`).

Since the description does not mention an order of the points, the result does not depend on one.
-/

namespace SuccinctProof.Poly

/-- No element of a list is among the others exactly when none is repeated. -/
theorem nodup_iff_forall_selections {α : Type} {l : List α} :
    l.Nodup ↔ ∀ s ∈ selections l, s.1 ∉ s.2 := by
  constructor
  · intro h s hs
    exact (List.nodup_cons.1 ((perm_of_mem_selections hs).nodup_iff.1 h)).1
  · intro h
    induction l with
    | nil => exact List.nodup_nil
    | cons a l ih =>
      rw [selections, List.forall_mem_cons, List.forall_mem_map] at h
      obtain ⟨ha, hl⟩ := h
      exact List.nodup_cons.2 ⟨ha, ih fun s hs hmem ↦ hl s hs (List.mem_cons_of_mem a hmem)⟩

/-- The coefficients of the polynomial through some points. -/
structure IsInterpolant {p : ℕ} [Modulus p] (points : List (Fp p × Fp p)) (f : Poly p) : Prop where
  /-- There is one coefficient for each point. -/
  length_eq : f.length = points.length
  /-- The second coordinates are the values at the first ones. -/
  eval_eq : ∀ pt ∈ points, f.eval pt.1 = pt.2

/-- A rearrangement of the points has the same interpolant. -/
theorem IsInterpolant.perm {p : ℕ} [Modulus p] {points points' : List (Fp p × Fp p)} {f : Poly p}
    (hf : IsInterpolant points f) (h : points'.Perm points) : IsInterpolant points' f where
  length_eq := hf.length_eq.trans h.length_eq.symm
  eval_eq pt hpt := hf.eval_eq pt (h.mem_iff.1 hpt)

variable {p : ℕ} [Fact p.Prime] {points : List (Fp p × Fp p)}

/-! ### The polynomial through points with distinct nodes -/

/-- **There is at most one interpolant.** -/
theorem IsInterpolant.unique (h : (points.map Prod.fst).Nodup) {f g : Poly p}
    (hf : IsInterpolant points f) (hg : IsInterpolant points g) : f = g := by
  refine eq_of_eval_eq h ?_ ?_ fun x hx ↦ ?_
  · rw [List.length_map, hf.length_eq]
  · rw [List.length_map, hg.length_eq]
  · obtain ⟨pt, hpt, rfl⟩ := List.mem_map.1 hx
    rw [hf.eval_eq pt hpt, hg.eval_eq pt hpt]

/-- **Distinct nodes have an interpolant**, and it is computed. -/
theorem exists_isInterpolant (h : (points.map Prod.fst).Nodup) :
    ∃ f, interpolate points = .ok f ∧ IsInterpolant points f := by
  obtain ⟨basis, hbasis, hb⟩ := exists_lagrangeBasis h
  refine ⟨combine (points.map Prod.snd) basis, ?_, ?_, fun pt hpt ↦ ?_⟩
  · rw [interpolate, hbasis]
    rfl
  · rw [hb.length_combine, List.length_map]
  · -- a point is found at one position in both lists of coordinates
    obtain ⟨i, hi, rfl⟩ := List.getElem_of_mem hpt
    have hnode : i < (points.map Prod.fst).length := by rwa [List.length_map]
    have hvalue : i < (points.map Prod.snd).length := by rwa [List.length_map]
    have heval := hb.eval_combine hnode hvalue
    rwa [List.getElem_map, List.getElem_map] at heval

/-- What is computed is the interpolant, for distinct nodes. -/
theorem interpolate_eq_ok_iff (h : (points.map Prod.fst).Nodup) {f : Poly p} :
    interpolate points = .ok f ↔ IsInterpolant points f := by
  obtain ⟨g, hg, hinterpolant⟩ := exists_isInterpolant h
  constructor
  · intro hf
    exact Except.ok.inj (hg.symm.trans hf) ▸ hinterpolant
  · intro hf
    rw [hg, hinterpolant.unique h hf]

/-! ### Repeated nodes -/

/-- A basis polynomial is refused when its node is among the others. -/
theorem lagrange_eq_error_iff {node : Fp p} {others : List (Fp p)} {e : Error} :
    lagrange node others = .error e ↔ node ∈ others ∧ e = .divisionByZero := by
  rw [lagrange, bind_eq_error_iff, Fp.inverse_eq_error_iff, prod_sub_eq_zero_iff]
  refine or_iff_left ?_
  rintro ⟨weight, -, h⟩
  cases h

/-- **Only a repeated node is refused**, always as a division by zero. -/
theorem interpolate_eq_error_iff {e : Error} :
    interpolate points = .error e ↔
      ¬ (points.map Prod.fst).Nodup ∧ e = .divisionByZero := by
  -- the only refusals there are come from a basis polynomial
  have hrefusal : ∀ e', interpolate points = .error e' → e' = .divisionByZero := by
    intro e' h
    rcases bind_eq_error_iff.1 h with hbasis | ⟨basis, -, h⟩
    · obtain ⟨s, -, hs⟩ := exists_of_mapM_eq_error hbasis
      exact (lagrange_eq_error_iff.1 hs).2
    · exact nomatch h
  constructor
  · intro h
    refine ⟨fun hnodup ↦ ?_, hrefusal e h⟩
    obtain ⟨f, hf, -⟩ := exists_isInterpolant hnodup
    exact nomatch hf.symm.trans h
  · rintro ⟨hrepeated, rfl⟩
    cases hresult : interpolate points with
    | error e => rw [hrefusal e hresult]
    | ok f =>
      -- a result has a basis behind it, so every node was found to differ from the others
      obtain ⟨basis, hbasis, -⟩ := bind_eq_ok_iff.1 hresult
      refine absurd (nodup_iff_forall_selections.2 fun s hs hmem ↦ ?_) hrepeated
      obtain ⟨b, -, hb⟩ := exists_of_mapM_eq_ok hbasis hs
      exact nomatch (lagrange_eq_error_iff.2 ⟨hmem, rfl⟩).symm.trans hb

/-- The order of the points has no influence. -/
theorem interpolate_perm {points' : List (Fp p × Fp p)} (h : points'.Perm points) :
    interpolate points' = interpolate points := by
  have hnodup : (points'.map Prod.fst).Nodup ↔ (points.map Prod.fst).Nodup :=
    (h.map Prod.fst).nodup_iff
  by_cases hdistinct : (points.map Prod.fst).Nodup
  · obtain ⟨f, hf, hinterpolant⟩ := exists_isInterpolant hdistinct
    rw [hf, interpolate_eq_ok_iff (hnodup.2 hdistinct)]
    exact hinterpolant.perm h
  · rw [interpolate_eq_error_iff.2 ⟨hdistinct, rfl⟩,
      interpolate_eq_error_iff.2 ⟨mt hnodup.1 hdistinct, rfl⟩]

/-! ### Interpolation -/

/-- **Interpolation finds the polynomial through the points, and nothing else is refused but a
repeated node.** Take any list of points, the empty one too. Interpolation is refused exactly when
two of them share their first coordinate, whatever their second ones are, and then as a division by
zero. Otherwise the result has one coefficient for each point, takes the second coordinates as its
values at the first ones, and is the only list of that many coefficients that does. So a polynomial
is found again from its values at as many distinct nodes as it has coefficients, and a
rearrangement of the points has the same outcome. -/
theorem interpolate_characterisation (points : List (Fp p × Fp p)) :
    (∀ e, interpolate points = .error e ↔
      ¬ (points.map Prod.fst).Nodup ∧ e = .divisionByZero) ∧
    ((points.map Prod.fst).Nodup → ∃ f, interpolate points = .ok f ∧
      f.length = points.length ∧ (∀ pt ∈ points, f.eval pt.1 = pt.2) ∧
      ∀ g : Poly p, g.length = points.length → (∀ pt ∈ points, g.eval pt.1 = pt.2) → g = f) ∧
    (∀ (f : Poly p) (nodes : List (Fp p)), nodes.Nodup → f.length = nodes.length →
      interpolate (nodes.map fun x ↦ (x, f.eval x)) = .ok f) ∧
    ∀ points' : List (Fp p × Fp p), points'.Perm points →
      interpolate points' = interpolate points := by
  refine ⟨fun e ↦ interpolate_eq_error_iff, fun h ↦ ?_, fun f nodes hnodes hlen ↦ ?_,
    fun points' ↦ interpolate_perm⟩
  · obtain ⟨f, hf, hinterpolant⟩ := exists_isInterpolant h
    refine ⟨f, hf, hinterpolant.length_eq, hinterpolant.eval_eq, fun g hlen heval ↦ ?_⟩
    exact IsInterpolant.unique h ⟨hlen, heval⟩ hinterpolant
  · have hfst : (nodes.map fun x ↦ (x, f.eval x)).map Prod.fst = nodes := by
      rw [List.map_map]
      exact List.map_id nodes
    rw [interpolate_eq_ok_iff (hfst.symm ▸ hnodes)]
    refine ⟨by rw [List.length_map, hlen], fun pt hpt ↦ ?_⟩
    obtain ⟨x, -, rfl⟩ := List.mem_map.1 hpt
    rfl

/-- Three points on a line have a leading zero, and a point that is given twice is refused. -/
theorem interpolate_linePoints :
    interpolate ([(5, 11), (1, 3), (2, 5)] : List (Fp 101 × Fp 101)) = .ok ⟨[1, 2, 0]⟩ ∧
    interpolate ([(1, 3), (5, 11), (2, 5)] : List (Fp 101 × Fp 101)) = .ok ⟨[1, 2, 0]⟩ ∧
    interpolate ([(1, 3), (2, 5), (1, 3)] : List (Fp 101 × Fp 101)) = .error .divisionByZero := by
  obtain ⟨-, hdistinct, -, hperm⟩ :=
    interpolate_characterisation ([(5, 11), (1, 3), (2, 5)] : List (Fp 101 × Fp 101))
  obtain ⟨f, hf, -, -, hunique⟩ := hdistinct (by decide)
  have hline : ⟨[1, 2, 0]⟩ = f := by
    refine hunique _ rfl ?_
    rw [List.forall_mem_cons, List.forall_mem_cons, List.forall_mem_singleton]
    decide
  rw [← hline] at hf
  refine ⟨hf, (hperm _ (by decide)).trans hf, ?_⟩
  obtain ⟨herror, -⟩ :=
    interpolate_characterisation ([(1, 3), (2, 5), (1, 3)] : List (Fp 101 × Fp 101))
  exact (herror _).2 ⟨by decide, rfl⟩

end SuccinctProof.Poly
