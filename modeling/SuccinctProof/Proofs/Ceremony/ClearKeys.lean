import SuccinctProof.Proofs.Ceremony.Keys

/-!
# Keys in the clear

The second phase never sees the secrets of the first one. It computes on published elements, from
which it takes leading and shifted parts. `ofReferenceString_of_ofRankOneSystem` says what comes out
for a lifted program, entry by entry and in terms of the secrets: either one of two refusals, the
missing powers first, or a key in which nothing is left of the sizes of the reference string.

A quotient for `n` constraints has `n - 1` coefficients. The last of its elements takes the
vanishing polynomial, with `n + 1` coefficients, from the power `n - 2` on, which is why `2 * n - 1`
powers are needed and suffice. With a single constraint there is no such element, and one power is
enough although the vanishing polynomial has two coefficients.
-/

namespace SuccinctProof

/-! ### The value of one wire -/

namespace Qap

variable {p : ℕ} [Modulus p]

/-- The scalar of the element of wire `i`, before division. -/
def wireValue (q : Qap p) (s : Phase1Secrets p) (i : ℕ) : Fp p :=
  s.beta * (q.a.getD i 0).eval s.tau + s.alpha * (q.b.getD i 0).eval s.tau +
    (q.c.getD i 0).eval s.tau

/-- The wires have their values in the order of the wires. -/
theorem wireValues_eq_map_range {q : Qap p} (hq : q.Aligned) (s : Phase1Secrets p) :
    q.wireValues s = (List.range q.numWires).map (q.wireValue s) := by
  refine List.ext_getElem ?_ fun i hi _ ↦ ?_
  · rw [length_wireValues hq, List.length_map, List.length_range]
  · rw [length_wireValues hq] at hi
    have ha : i < q.a.length := hi
    have hb : i < q.b.length := hq.length_b ▸ hi
    have hc : i < q.c.length := hq.length_c ▸ hi
    rw [List.getElem_map, List.getElem_range, wireValue, List.getD_eq_getElem _ _ ha,
      List.getD_eq_getElem _ _ hb, List.getD_eq_getElem _ _ hc]
    simp only [wireValues, List.getElem_map, List.getElem_zip]

end Qap

namespace ProvingKey

/-! ### Refusals -/

section Refusals

variable {p : ℕ} [Modulus p] {G₁ G₂ : Type} [AddCommGroup G₁] [Module (Fp p) G₁] [AddCommGroup G₂]
  [Module (Fp p) G₂] [Generated G₁] [Generated G₂] {q : Qap p} {srs : ReferenceString G₁ G₂}

/-- Missing powers are noticed before the secrets are looked at. -/
theorem ofReferenceString_of_short (hq : q.Aligned)
    (hshort : srs.tauG1.length < q.numConstraints + (q.numConstraints - 1) ∨
      srs.tauG2.length < q.numConstraints) (t : Phase2Secrets p) :
    ofReferenceString srs q t = .error .degreeTooLarge := by
  rw [ofReferenceString, if_neg hq.not_malformed, if_pos hshort]
  rfl

/-- A divisor that is zero is noticed before anything is computed. -/
theorem ofReferenceString_of_divisor_eq_zero (hq : q.Aligned)
    (henough : ¬ (srs.tauG1.length < q.numConstraints + (q.numConstraints - 1) ∨
      srs.tauG2.length < q.numConstraints)) {t : Phase2Secrets p}
    (hzero : t.delta = 0 ∨ t.gamma = 0) :
    ofReferenceString srs q t = .error .divisionByZero := by
  rw [ofReferenceString, if_neg hq.not_malformed, if_neg henough]
  by_cases hgamma : t.gamma = 0
  · rw [Fp.inverse_eq_error_iff.2 ⟨hgamma, rfl⟩]
    rfl
  · rw [Fp.inverse_of_ne_zero hgamma,
      Fp.inverse_eq_error_iff.2 ⟨hzero.resolve_right hgamma, rfl⟩]
    rfl

end Refusals

/-! ### The key, entry by entry -/

variable {p : ℕ} [Fact p.Prime] {G₁ G₂ : Type} [AddCommGroup G₁] [Module (Fp p) G₁]
  [AddCommGroup G₂] [Module (Fp p) G₂] [Generated G₁] [Generated G₂]

/-- **The second phase computes the key in the clear.** Take matrices of one height `n` below the
modulus that were lifted, sizes of a reference string other than zero, and any secrets. From the
string of the first phase the second one computes the key below, unless the string has less than
`2 * n - 1` powers in the first group or less than `n` in the second, or else a divisor is zero. The
sizes are not found in the key. -/
theorem ofReferenceString_of_ofRankOneSystem {m : RankOneSystem p} {numPublic : ℕ} {q : Qap p}
    (hm : m.SameHeight) (hlt : m.numConstraints < p) (hq : Qap.ofRankOneSystem m numPublic = .ok q)
    {config : CeremonyConfig} (h₁ : config.powersG1 ≠ 0) (h₂ : config.powersG2 ≠ 0)
    (s : Phase1Secrets p) (t : Phase2Secrets p) :
    ∃ srs : ReferenceString G₁ G₂, ReferenceString.ofSecrets config s = .ok srs ∧
      ofReferenceString srs q t =
        if config.powersG1 < 2 * m.numConstraints - 1 ∨ config.powersG2 < m.numConstraints then
          .error .degreeTooLarge
        else if t.delta = 0 ∨ t.gamma = 0 then .error .divisionByZero
        else .ok {
          vk := {
            alphaG1 := s.alpha • Generated.generator
            betaG2 := s.beta • Generated.generator
            gammaG2 := t.gamma • Generated.generator
            deltaG2 := t.delta • Generated.generator
            publicTerms := (List.range numPublic).map fun i ↦
              (t.gamma⁻¹ * q.wireValue s i) • Generated.generator }
          betaG1 := s.beta • Generated.generator
          deltaG1 := t.delta • Generated.generator
          tauG1 := (List.range m.numConstraints).map fun j ↦ s.tau ^ j • Generated.generator
          tauG2 := (List.range m.numConstraints).map fun j ↦ s.tau ^ j • Generated.generator
          privateTerms := (List.range' numPublic (m.numWires - numPublic)).map fun i ↦
            (t.delta⁻¹ * q.wireValue s i) • Generated.generator
          quotientTerms := (List.range (m.numConstraints - 1)).map fun j ↦
            (t.delta⁻¹ * (s.tau ^ j * q.z.eval s.tau)) • Generated.generator
          qap := q } := by
  have hlift := Qap.lifts_of_eq_ok hm hlt hq
  have hshape := hlift.wellShaped
  have hn : q.numConstraints = m.numConstraints := hlift.numConstraints_eq
  refine ⟨_, ReferenceString.ofSecrets_eq_ok_iff.2 ⟨h₁, h₂, rfl⟩, ?_⟩
  split_ifs with hshort hzero
  · refine ofReferenceString_of_short hshape.toAligned ?_ t
    rw [ReferenceString.length_tauG1, ReferenceString.length_tauG2]
    omega
  · refine ofReferenceString_of_divisor_eq_zero hshape.toAligned ?_ hzero
    rw [ReferenceString.length_tauG1, ReferenceString.length_tauG2]
    omega
  · obtain ⟨hdelta, hgamma⟩ := not_or.1 hzero
    refine (ofReferenceString_eq_ok_iff hshape hgamma hdelta).2 ⟨by omega, by omega, ?_⟩
    have hpublic : (List.range m.numWires).take numPublic = List.range numPublic := by
      rw [List.take_range, Nat.min_eq_left hlift.numPublic_le]
    have hprivate : (List.range m.numWires).drop numPublic =
        List.range' numPublic (m.numWires - numPublic) := by
      rw [List.range_eq_range', List.drop_range', zero_add, mul_one]
    rw [ofExponents, Qap.wireValues_eq_map_range hshape.toAligned, hn, hlift.numPublic_eq,
      hlift.numWires_eq, ← List.map_take, ← List.map_drop, hpublic, hprivate]
    simp only [powersFrom_eq_map_range, List.map_map, Function.comp_def, one_mul, mul_assoc,
      mul_comm (q.z.eval s.tau)]

/-- Two constraints need three powers in the first group. With two, the zero divisor is not looked
at. -/
theorem cubeSystem_keys : Qap.cubeSystem.SameHeight ∧ Qap.cubeSystem.numConstraints < 101 ∧
    ∃ q, Qap.ofRankOneSystem Qap.cubeSystem 2 = .ok q ∧
    (∃ (srs : ReferenceString (Fp 101) (Fp 101)) (pk : ProvingKey 101 (Fp 101) (Fp 101)),
      ReferenceString.ofSecrets ⟨3, 2, none⟩ (⟨5, 6, 7⟩ : Phase1Secrets 101) = .ok srs ∧
      ofReferenceString srs q ⟨8, 9⟩ = .ok pk ∧ pk.vk.publicTerms = [0, 32] ∧
      pk.privateTerms = [41, 51] ∧ pk.quotientTerms = [52]) ∧
    ∃ srs : ReferenceString (Fp 101) (Fp 101),
      ReferenceString.ofSecrets ⟨2, 9, none⟩ (⟨5, 6, 7⟩ : Phase1Secrets 101) = .ok srs ∧
      ofReferenceString srs q ⟨0, 9⟩ = .error .degreeTooLarge := by
  have hm : Qap.cubeSystem.SameHeight := ⟨rfl, rfl⟩
  have hlt : Qap.cubeSystem.numConstraints < 101 := by decide
  let q : Qap 101 := ⟨[⟨[0, 0]⟩, ⟨[2, -1]⟩, ⟨[-1, 1]⟩, ⟨[0, 0]⟩],
    [⟨[0, 0]⟩, ⟨[1, 0]⟩, ⟨[0, 0]⟩, ⟨[0, 0]⟩],
    [⟨[0, 0]⟩, ⟨[0, 0]⟩, ⟨[2, -1]⟩, ⟨[-1, 1]⟩], ⟨[2, -3, 1]⟩, 2⟩
  have hq : Qap.ofRankOneSystem Qap.cubeSystem 2 = .ok q := by decide +kernel
  refine ⟨hm, hlt, q, hq, ?_, ?_⟩
  · obtain ⟨srs, hsrs, hkey⟩ : ∃ srs : ReferenceString (Fp 101) (Fp 101), _ :=
      ofReferenceString_of_ofRankOneSystem hm hlt hq
        (by decide : (⟨3, 2, none⟩ : CeremonyConfig).powersG1 ≠ 0) (by decide) ⟨5, 6, 7⟩ ⟨8, 9⟩
    rw [if_neg (by decide), if_neg (by decide)] at hkey
    exact ⟨srs, _, hsrs, hkey, by decide +kernel, by decide +kernel, by decide +kernel⟩
  · obtain ⟨srs, hsrs, hkey⟩ : ∃ srs : ReferenceString (Fp 101) (Fp 101), _ :=
      ofReferenceString_of_ofRankOneSystem hm hlt hq
        (by decide : (⟨2, 9, none⟩ : CeremonyConfig).powersG1 ≠ 0) (by decide) ⟨5, 6, 7⟩ ⟨0, 9⟩
    rw [if_pos (by decide)] at hkey
    exact ⟨srs, hsrs, hkey⟩

end ProvingKey

end SuccinctProof
