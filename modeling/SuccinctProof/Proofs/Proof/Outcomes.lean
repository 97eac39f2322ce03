import Mathlib.Algebra.BigOperators.Group.Finset.Basic
import Mathlib.Order.Interval.Finset.Nat
import SuccinctProof.Proofs.Ceremony.ClearKeys
import SuccinctProof.Proofs.Proof.Equation

/-!
# What the prover answers

Under a key that both phases made for a lifted program, the prover refuses a vector exactly when
the vector has no quotient, with the refusal of the division and before the key is looked at
(`Proof.ofWitness_ofExponents_eq_error_iff`). Nothing is ever too long for the key: a quotient has
one coefficient less than there are constraints, a combined polynomial has one for each of them,
and the key has as many elements.

`Proof.ofWitness_of_ofRankOneSystem` says the same in terms of the constraints, and what the
elements of a proof are. The private part is a sum over the private wires (`dot_drop_eq_sum`).
-/

namespace SuccinctProof

/-! ### Private values -/

/-- A list is its entries in the order of their positions. -/
theorem map_getD_range {α : Type} (l : List α) (d : α) :
    (List.range l.length).map (l.getD · d) = l := by
  refine List.ext_getElem (by rw [List.length_map, List.length_range]) fun i _ hi ↦ ?_
  rw [List.getElem_map, List.getElem_range, List.getD_eq_getElem _ _ hi]

/-- Values and a function of their positions are multiplied and added up, from one position on. -/
theorem dot_drop_eq_sum {p : ℕ} [Modulus p] (ws : List (Fp p)) (f : ℕ → Fp p) {k : ℕ}
    (hk : k ≤ ws.length) :
    dot (ws.drop k) (((List.range ws.length).map f).drop k) =
      ∑ i ∈ Finset.Ico k ws.length, ws.getD i 0 * f i := by
  have hdrop : (List.range ws.length).drop k = List.range' k (ws.length - k) := by
    rw [List.range_eq_range', List.drop_range', zero_add, mul_one]
  have hfinset : Finset.Ico k ws.length = (List.range' k (ws.length - k)).toFinset := by
    rw [List.toFinset_range'_1, Nat.add_sub_cancel' hk]
  calc
    dot (ws.drop k) (((List.range ws.length).map f).drop k)
      = dot ((List.range' k (ws.length - k)).map (ws.getD · 0))
          ((List.range' k (ws.length - k)).map f) := by
        rw [← hdrop, List.map_drop, List.map_drop, map_getD_range]
    _ = ((List.range' k (ws.length - k)).map fun i ↦ ws.getD i 0 * f i).sum := by
        rw [dot, List.zipWith_map, List.zipWith_self]
    _ = ∑ i ∈ Finset.Ico k ws.length, ws.getD i 0 * f i := by
        rw [hfinset, List.sum_toFinset _ List.nodup_range']

/-! ### Vectors without a quotient -/

/-- **A vector has no quotient for one of two reasons**: it has not one value for each wire, or one
of the constraints does not hold. -/
theorem Qap.Lifts.quotient_eq_error_iff {p : ℕ} [Fact p.Prime] {q : Qap p} {m : RankOneSystem p}
    {numPublic : ℕ} (hq : q.Lifts m numPublic) (hlt : m.numConstraints < p) {w : List (Fp p)}
    {e : Error} :
    q.quotient w = .error e ↔
      w.length ≠ m.numWires ∧ e = .witnessLength m.numWires w.length ∨
      w.length = m.numWires ∧
        (∃ i < m.numConstraints, ¬ RankOneSystem.RowHolds w m.a m.b m.c i) ∧
        e = .notDivisible := by
  by_cases hw : w.length = m.numWires
  · have hrows := RankOneSystem.firstViolated_eq_none_iff hq.sameHeight hw
    by_cases hsat : m.firstViolated w = .ok none
    · obtain ⟨h, hquotient, -, -⟩ := hq.quotient_of_satisfied hlt hw hsat
      have hnone : ¬ ∃ i < m.numConstraints, ¬ RankOneSystem.RowHolds w m.a m.b m.c i := by
        push Not
        exact hrows.1 hsat
      simp [hquotient, hw, hnone]
    · have hsome : ∃ i < m.numConstraints, ¬ RankOneSystem.RowHolds w m.a m.b m.c i := by
        rw [hrows] at hsat
        push Not at hsat
        exact hsat
      simp [hq.quotient_of_violated hlt hw hsat, hw, hsome, eq_comm]
  · have hw' : w.length ≠ q.numWires := hq.numWires_eq ▸ hw
    rw [quotient, if_pos hw', hq.numWires_eq]
    simp [hw, eq_comm]

/-! ### The answers -/

namespace Proof

variable {p : ℕ} [Fact p.Prime] {G₁ G₂ : Type} [AddCommGroup G₁] [Module (Fp p) G₁]
  [AddCommGroup G₂] [Module (Fp p) G₂] [SplitMul (Fp p) G₁]
  {q : Qap p} {m : RankOneSystem p} {numPublic : ℕ} {w : List (Fp p)} {s : Phase1Secrets p}
  {t : Phase2Secrets p}

/-- A vector without a quotient is refused before the key is looked at. -/
theorem ofWitness_of_quotient_eq_error {pk : ProvingKey p G₁ G₂} {e : Error}
    (h : pk.qap.quotient w = .error e) (r₁ r₂ : Fp p) : ofWitness pk w r₁ r₂ = .error e := by
  rw [ofWitness, h]
  rfl

variable [LawfulSplitMul (Fp p) G₁] [Generated G₁] [Generated G₂]

/-- **A vector with a quotient has a proof**, whatever the blinding factors are: the key of a lifted
program is long enough for all of its parts. -/
theorem ofWitness_of_quotient_eq_ok (hq : q.Lifts m numPublic) (hlt : m.numConstraints < p)
    {h : Poly p} (hquotient : q.quotient w = .ok h) (r₁ r₂ : Fp p) :
    ofWitness (ProvingKey.ofExponents q s t : ProvingKey p G₁ G₂) w r₁ r₂ =
      .ok (scalars q s t w h r₁ r₂).ofScalars := by
  have hshape := hq.wellShaped
  have hw : w.length = m.numWires := (Qap.length_of_quotient hquotient).trans hq.numWires_eq
  have hsat : m.firstViolated w = .ok none := by
    by_contra hviolated
    exact nomatch hquotient.symm.trans (hq.quotient_of_violated hlt hw hviolated)
  obtain ⟨h', hquotient', hlen, -⟩ := hq.quotient_of_satisfied hlt hw hsat
  obtain rfl := Except.ok.inj (hquotient.symm.trans hquotient')
  rw [← hq.numConstraints_eq] at hlen
  exact ofWitness_ofExponents hshape.toAligned hquotient hlen.le (length_left_le hshape w)
    (length_right_le hshape w) r₁ r₂

/-- **Only a vector without a quotient is refused**, with the refusal of the division. -/
theorem ofWitness_ofExponents_eq_error_iff (hq : q.Lifts m numPublic) (hlt : m.numConstraints < p)
    {r₁ r₂ : Fp p} {e : Error} :
    ofWitness (ProvingKey.ofExponents q s t : ProvingKey p G₁ G₂) w r₁ r₂ = .error e ↔
      q.quotient w = .error e := by
  refine ⟨fun herror ↦ ?_, fun h ↦ ofWitness_of_quotient_eq_error h r₁ r₂⟩
  cases hquotient : q.quotient w with
  | ok h => exact nomatch (ofWitness_of_quotient_eq_ok hq hlt hquotient r₁ r₂).symm.trans herror
  | error e' =>
    have herror' : ofWitness (ProvingKey.ofExponents q s t : ProvingKey p G₁ G₂) w r₁ r₂ =
        .error e' := ofWitness_of_quotient_eq_error hquotient r₁ r₂
    exact congrArg Except.error (Except.error.inj (herror'.symm.trans herror))

/-- **The prover fails exactly on the vectors that do not satisfy the constraints, and else gives
the elements below.** Take matrices of one height below the modulus that were lifted, and a key that
both phases made from any secrets. A vector of another length than the number of wires is refused
for its length, and one that violates a constraint as not divisible. Nothing else is refused, and
the blinding factors have no part in it. The proof of a vector has the elements below, also where a
factor is zero. -/
theorem ofWitness_of_ofRankOneSystem (hm : m.SameHeight) (hlt : m.numConstraints < p)
    (hq : Qap.ofRankOneSystem m numPublic = .ok q) {config : CeremonyConfig}
    {srs : ReferenceString G₁ G₂} (hsrs : ReferenceString.ofSecrets config s = .ok srs)
    {pk : ProvingKey p G₁ G₂} (hpk : ProvingKey.ofReferenceString srs q t = .ok pk)
    (w : List (Fp p)) :
    (∀ (r₁ r₂ : Fp p) (e : Error), ofWitness pk w r₁ r₂ = .error e ↔
      w.length ≠ m.numWires ∧ e = .witnessLength m.numWires w.length ∨
      w.length = m.numWires ∧
        (∃ i < m.numConstraints, ¬ RankOneSystem.RowHolds w m.a m.b m.c i) ∧
        e = .notDivisible) ∧
    (w.length = m.numWires →
      (∀ i < m.numConstraints, RankOneSystem.RowHolds w m.a m.b m.c i) →
      ∃ h, q.quotient w = .ok h ∧ ∀ r₁ r₂ : Fp p,
        let a := s.alpha + (q.left w).eval s.tau + r₁ * t.delta
        let b := s.beta + (q.right w).eval s.tau + r₂ * t.delta
        ofWitness pk w r₁ r₂ = .ok {
          a := a • Generated.generator
          b := b • Generated.generator
          c := (t.delta⁻¹ * (∑ i ∈ Finset.Ico numPublic m.numWires,
              w.getD i 0 * q.wireValue s i + h.eval s.tau * q.z.eval s.tau) +
            r₂ * a + r₁ * b - r₁ * r₂ * t.delta) • Generated.generator }) := by
  have hlift := Qap.lifts_of_eq_ok hm hlt hq
  obtain ⟨hshape, -, -, rfl⟩ := ProvingKey.eq_ofExponents hsrs hpk
  refine ⟨fun r₁ r₂ e ↦ ?_, fun hw hrows ↦ ?_⟩
  · rw [ofWitness_ofExponents_eq_error_iff hlift hlt, hlift.quotient_eq_error_iff hlt]
  have hsat := (RankOneSystem.firstViolated_eq_none_iff hm hw).2 hrows
  obtain ⟨h, hquotient, -, -⟩ := hlift.quotient_of_satisfied hlt hw hsat
  refine ⟨h, hquotient, fun r₁ r₂ ↦ ?_⟩
  have hprivate := dot_drop_eq_sum w (q.wireValue s) (hw ▸ hlift.numPublic_le)
  rw [hw, ← hlift.numWires_eq, ← Qap.wireValues_eq_map_range hshape, hlift.numWires_eq,
    ← hlift.numPublic_eq] at hprivate
  rw [ofWitness_of_quotient_eq_ok hlift hlt hquotient, ofScalars, scalars, hprivate,
    ← hlift.numPublic_eq]
  dsimp only
  congr 3 <;> ring

/-- The fourth power of a public wire: the second wire, its square, and the square of that. -/
def fourthPowerSystem (p : ℕ) [Modulus p] : RankOneSystem p where
  a := [[0, 1, 0, 0], [0, 0, 1, 0]]
  b := [[0, 1, 0, 0], [0, 0, 1, 0]]
  c := [[0, 0, 1, 0], [0, 0, 0, 1]]
  numWires := 4

/-- The program of the system with two public wires, put together from the polynomials that are one
at the point of one constraint and zero at that of the other. -/
def fourthPowerProgram {p : ℕ} [Modulus p] (first second : Poly p) : Qap p where
  a := [.zeros 2, first, second, .zeros 2]
  b := [.zeros 2, first, second, .zeros 2]
  c := [.zeros 2, .zeros 2, first, second]
  z := .vanishing 2
  numPublic := 2

/-- Each of the three answers. The last proof is blinded by zero on the left. -/
theorem fourthPowerSystem_outcomes :
    (fourthPowerSystem 101).SameHeight ∧ (fourthPowerSystem 101).numConstraints < 101 ∧
    ∃ (q : Qap 101) (srs : ReferenceString (Fp 101) (Fp 101))
      (pk : ProvingKey 101 (Fp 101) (Fp 101)),
      Qap.ofRankOneSystem (fourthPowerSystem 101) 2 = .ok q ∧
      ReferenceString.ofSecrets ⟨3, 2, none⟩ (⟨5, 6, 7⟩ : Phase1Secrets 101) = .ok srs ∧
      ProvingKey.ofReferenceString srs q ⟨8, 9⟩ = .ok pk ∧
      ofWitness pk [1, 2] 4 10 = .error (.witnessLength 4 2) ∧
      ofWitness pk [1, 2, 4, 17] 4 10 = .error .notDivisible ∧
      q.quotient [1, 2, 4, 16] = .ok ⟨[4]⟩ ∧
      ofWitness pk [1, 2, 4, 16] 4 10 = .ok ⟨48, 97, 31⟩ ∧
      ofWitness pk [1, 2, 4, 16] 0 10 = .ok ⟨16, 97, 47⟩ := by
  have hm : (fourthPowerSystem 101).SameHeight := ⟨rfl, rfl⟩
  have hlt : (fourthPowerSystem 101).numConstraints < 101 := by decide
  let q : Qap 101 := fourthPowerProgram ⟨[2, -1]⟩ ⟨[-1, 1]⟩
  have hq : Qap.ofRankOneSystem (fourthPowerSystem 101) 2 = .ok q := by decide +kernel
  have hshape := (Qap.lifts_of_eq_ok hm hlt hq).wellShaped
  obtain ⟨srs, hsrs, pk, hpk⟩ : ∃ srs : ReferenceString (Fp 101) (Fp 101),
      ReferenceString.ofSecrets ⟨3, 2, none⟩ (⟨5, 6, 7⟩ : Phase1Secrets 101) = .ok srs ∧
      ∃ pk, ProvingKey.ofReferenceString srs q ⟨8, 9⟩ = .ok pk :=
    ⟨_, ReferenceString.ofSecrets_eq_ok_iff.2 ⟨by decide, by decide, rfl⟩, _,
      (ProvingKey.ofReferenceString_eq_ok_iff hshape (by decide) (by decide)).2
        ⟨by decide, by decide, rfl⟩⟩
  have houtcomes := ofWitness_of_ofRankOneSystem hm hlt hq hsrs hpk
  obtain ⟨h, hquotient, hproof⟩ := (houtcomes [1, 2, 4, 16]).2 rfl (by decide)
  have hvalue : q.quotient [1, 2, 4, 16] = .ok ⟨[4]⟩ := by decide +kernel
  obtain rfl := Except.ok.inj (hquotient.symm.trans hvalue)
  refine ⟨hm, hlt, q, srs, pk, hq, hsrs, hpk, ?_, ?_, hvalue, ?_, ?_⟩
  · exact ((houtcomes [1, 2]).1 4 10 _).2 (.inl ⟨by decide, rfl⟩)
  · exact ((houtcomes [1, 2, 4, 17]).1 4 10 _).2 (.inr ⟨rfl, ⟨1, by decide⟩, rfl⟩)
  · exact (hproof 4 10).trans (by decide +kernel)
  · exact (hproof 0 10).trans (by decide +kernel)

end Proof

end SuccinctProof
