import SuccinctProof.Ceremony.Keys
import SuccinctProof.Proofs.Ceremony.ReferenceString
import SuccinctProof.Proofs.Qap.Divisibility

/-!
# Keys in the exponent

The keys for a program are again determined by secrets (`ProvingKey.ofExponents`). The scalar of a
wire's element is the value at `tau` of `beta * a + alpha * b + c` for the polynomials of the wire,
and these values combine with a vector to the values of the combined polynomials
(`Qap.dot_wireValues`).

`ProvingKey.ofReferenceString_ofExponents_eq_ok_iff` says that the second phase computes this key,
and when it is refused: for a program whose parts do not fit together (`Qap.Aligned`), with too few
powers of `tau`, and for a divisor that is zero. For a program as lifting makes them
(`Qap.WellShaped`) the number of constraints bounds all lengths, and only the number of powers is
left to check (`ProvingKey.ofReferenceString_eq_ok_iff`).
-/

namespace SuccinctProof

variable {p : ℕ}

/-- The parts of a program fit together. -/
structure Qap.Aligned (q : Qap p) : Prop where
  /-- A polynomial of right factors for each wire. -/
  length_b : q.b.length = q.numWires
  /-- A polynomial of products for each wire. -/
  length_c : q.c.length = q.numWires
  /-- There is a public wire. -/
  numPublic_pos : 0 < q.numPublic
  /-- The public wires are among the wires. -/
  numPublic_le : q.numPublic ≤ q.numWires

/-- The parts of a program fit together, and no polynomial is longer than there are constraints. -/
structure Qap.WellShaped (q : Qap p) : Prop extends q.Aligned where
  /-- The polynomials are no longer than there are constraints. -/
  length_le : ∀ f ∈ q.a ++ q.b ++ q.c, f.length ≤ q.numConstraints

/-- A lifted program fits together. -/
theorem Qap.Lifts.wellShaped [Fact p.Prime] {q : Qap p} {m : RankOneSystem p} {numPublic : ℕ}
    (hq : q.Lifts m numPublic) : q.WellShaped where
  length_b := hq.right.length_eq.trans hq.numWires_eq.symm
  length_c := hq.product.length_eq.trans hq.numWires_eq.symm
  numPublic_pos := hq.numPublic_eq ▸ hq.numPublic_pos
  numPublic_le := by
    rw [hq.numPublic_eq, hq.numWires_eq]
    exact hq.numPublic_le
  length_le f hf := by
    rw [hq.numConstraints_eq]
    exact (hq.length_of_mem f hf).le

/-! ### The polynomials of the wires -/

namespace Qap.Aligned

variable {q : Qap p} (hq : q.Aligned)
include hq

/-- A program that fits together passes the check of its shape. -/
theorem not_malformed : ¬ (q.b.length ≠ q.numWires ∨ q.c.length ≠ q.numWires ∨ q.numPublic = 0 ∨
    q.numWires < q.numPublic) := by
  have hpos := hq.numPublic_pos
  have hle := hq.numPublic_le
  rw [hq.length_b, hq.length_c]
  omega

theorem map_left : (q.a.zip (q.b.zip q.c)).map (·.1) = q.a := by
  refine List.map_fst_zip ?_
  rw [List.length_zip, hq.length_b, hq.length_c, Nat.min_self]
  rfl

theorem map_snd : (q.a.zip (q.b.zip q.c)).map (·.2) = q.b.zip q.c := by
  refine List.map_snd_zip ?_
  rw [List.length_zip, hq.length_b, hq.length_c, Nat.min_self]
  rfl

theorem map_right : (q.a.zip (q.b.zip q.c)).map (·.2.1) = q.b := by
  have h := congrArg (List.map (·.1)) hq.map_snd
  rwa [List.map_map, List.map_fst_zip (hq.length_b.trans hq.length_c.symm).le] at h

theorem map_product : (q.a.zip (q.b.zip q.c)).map (·.2.2) = q.c := by
  have h := congrArg (List.map (·.2)) hq.map_snd
  rwa [List.map_map, List.map_snd_zip (hq.length_b.trans hq.length_c.symm).ge] at h

/-- The polynomials of the wires are all polynomials of the program. -/
theorem forall_mem_zip {P : Poly p → Prop} :
    (∀ t ∈ q.a.zip (q.b.zip q.c), P t.1 ∧ P t.2.1 ∧ P t.2.2) ↔ ∀ f ∈ q.a ++ q.b ++ q.c, P f := by
  have ha := List.forall_mem_map (P := P) (l := q.a.zip (q.b.zip q.c)) (f := (·.1))
  have hb := List.forall_mem_map (P := P) (l := q.a.zip (q.b.zip q.c)) (f := (·.2.1))
  have hc := List.forall_mem_map (P := P) (l := q.a.zip (q.b.zip q.c)) (f := (·.2.2))
  rw [hq.map_left] at ha
  rw [hq.map_right] at hb
  rw [hq.map_product] at hc
  simp only [imp_and, forall_and, List.forall_mem_append, ha, hb, hc, and_assoc]

end Qap.Aligned

variable [Modulus p]

/-! ### The values of wires -/

namespace Qap

variable {q : Qap p}

/-- The scalars of the elements of the wires, before division. -/
def wireValues (q : Qap p) (s : Phase1Secrets p) : List (Fp p) :=
  (q.a.zip (q.b.zip q.c)).map fun (a, b, c) ↦
    s.beta * a.eval s.tau + s.alpha * b.eval s.tau + c.eval s.tau

theorem length_wireValues (hq : q.Aligned) (s : Phase1Secrets p) :
    (q.wireValues s).length = q.numWires := by
  rw [wireValues, List.length_map, List.length_zip, List.length_zip, hq.length_b, hq.length_c,
    Nat.min_self]
  exact Nat.min_self _

/-- **The values of wires combine to the values of combinations.** -/
theorem dot_wireValues (hq : q.Aligned) (s : Phase1Secrets p) (w : List (Fp p)) :
    dot w (q.wireValues s) = s.beta * (q.left w).eval s.tau + s.alpha * (q.right w).eval s.tau +
      (q.product w).eval s.tau := by
  have ha := congrArg (List.map (·.eval s.tau)) hq.map_left
  have hb := congrArg (List.map (·.eval s.tau)) hq.map_right
  have hc := congrArg (List.map (·.eval s.tau)) hq.map_product
  simp only [List.map_map, Function.comp_def] at ha hb hc
  rw [wireValues, dot_map_add, dot_map_add, dot_map_mul_left, dot_map_mul_left, ha, hb, hc, left,
    right, product, Poly.eval_combine, Poly.eval_combine, Poly.eval_combine]

end Qap

/-! ### Keys -/

variable {G₁ G₂ : Type} [AddCommGroup G₁] [Module (Fp p) G₁] [AddCommGroup G₂] [Module (Fp p) G₂]
  [Generated G₁] [Generated G₂]

/-- The element of a wire, from the string of some secrets. -/
theorem ReferenceString.wireTerm_ofExponents_eq_ok_iff {n₁ n₂ : ℕ} {a b c : Poly p}
    {s : Phase1Secrets p} {v : G₁} :
    (ofExponents n₁ n₂ s : ReferenceString G₁ G₂).wireTerm a b c = .ok v ↔
      (a.length ≤ n₁ ∧ b.length ≤ n₁ ∧ c.length ≤ n₁) ∧
        (s.beta * a.eval s.tau + s.alpha * b.eval s.tau + c.eval s.tau) •
          (Generated.generator : G₁) = v := by
  rw [wireTerm, ofExponents]
  simp only [bind_eq_ok_iff, evalInGroup_map_eq_ok_iff, pure_eq_ok_iff, add_smul, one_mul]
  constructor
  · rintro ⟨_, ⟨ha, rfl⟩, _, ⟨hb, rfl⟩, _, ⟨hc, rfl⟩, rfl⟩
    exact ⟨⟨ha, hb, hc⟩, rfl⟩
  · rintro ⟨⟨ha, hb, hc⟩, rfl⟩
    exact ⟨_, ⟨ha, rfl⟩, _, ⟨hb, rfl⟩, _, ⟨hc, rfl⟩, rfl⟩

namespace ProvingKey

/-- The key of the given secrets. -/
def ofExponents (q : Qap p) (s : Phase1Secrets p) (t : Phase2Secrets p) :
    ProvingKey p G₁ G₂ where
  vk := {
    alphaG1 := s.alpha • Generated.generator
    betaG2 := s.beta • Generated.generator
    gammaG2 := t.gamma • Generated.generator
    deltaG2 := t.delta • Generated.generator
    publicTerms := (((q.wireValues s).take q.numPublic).map (t.gamma⁻¹ * ·)).map
      (· • Generated.generator) }
  betaG1 := s.beta • Generated.generator
  deltaG1 := t.delta • Generated.generator
  tauG1 := (powersFrom s.tau 1 q.numConstraints).map (· • Generated.generator)
  tauG2 := (powersFrom s.tau 1 q.numConstraints).map (· • Generated.generator)
  privateTerms := (((q.wireValues s).drop q.numPublic).map (t.delta⁻¹ * ·)).map
    (· • Generated.generator)
  quotientTerms := (powersFrom s.tau (t.delta⁻¹ * q.z.eval s.tau) (q.numConstraints - 1)).map
    (· • Generated.generator)
  qap := q

variable {q : Qap p} {s : Phase1Secrets p} {n₁ n₂ : ℕ}

/-- The elements of all wires, from the string of some secrets. -/
theorem mapM_wireTerm_eq_ok_iff (hq : q.Aligned) {vs : List G₁} :
    (q.a.zip (q.b.zip q.c)).mapM (fun t ↦
      (ReferenceString.ofExponents n₁ n₂ s : ReferenceString G₁ G₂).wireTerm t.1 t.2.1 t.2.2) =
        .ok vs ↔
      (∀ f ∈ q.a ++ q.b ++ q.c, f.length ≤ n₁) ∧
        (q.wireValues s).map (· • (Generated.generator : G₁)) = vs := by
  rw [mapM_eq_ok_iff_forall fun _ _ ↦ ReferenceString.wireTerm_ofExponents_eq_ok_iff,
    Qap.wireValues, List.map_map, hq.forall_mem_zip (P := fun f ↦ f.length ≤ n₁)]
  rfl

/-- The elements for the quotient: the divisor at `tau`, times powers of `tau`. -/
theorem mapM_quotientTerm (k : Fp p) (hn₁ : q.numConstraints + (q.numConstraints - 1) ≤ n₁) :
    ((List.range (q.numConstraints - 1)).mapM fun j ↦ do
      return k • (← q.z.evalInGroup
        ((ReferenceString.ofExponents n₁ n₂ s : ReferenceString G₁ G₂).tauG1.drop j))) =
      .ok ((powersFrom s.tau (k * q.z.eval s.tau) (q.numConstraints - 1)).map
        (· • (Generated.generator : G₁))) := by
  rw [powersFrom_eq_map_range, List.map_map]
  refine mapM_eq_ok fun j hj ↦ ?_
  rw [List.mem_range] at hj
  have hlen : q.z.length ≤ n₁ - j := by
    rw [show q.numConstraints = q.z.length - 1 from rfl] at hj hn₁
    omega
  rw [ReferenceString.ofExponents]
  dsimp only
  -- the powers from `tau ^ j` on make up the factor `tau ^ j`
  rw [← List.map_drop, drop_powersFrom, evalInGroup_map hlen]
  simp only [ok_bind, Function.comp_apply, smul_smul]
  congr 2
  ring

/-- From the string of some secrets, the second phase computes the key of the secrets. -/
theorem ofReferenceString_ofExponents (hq : q.Aligned)
    (hn₁ : q.numConstraints + (q.numConstraints - 1) ≤ n₁) (hn₂ : q.numConstraints ≤ n₂)
    (hle : ∀ f ∈ q.a ++ q.b ++ q.c, f.length ≤ n₁) {t : Phase2Secrets p} (hgamma : t.gamma ≠ 0)
    (hdelta : t.delta ≠ 0) :
    ofReferenceString (ReferenceString.ofExponents n₁ n₂ s : ReferenceString G₁ G₂) q t =
      .ok (ofExponents q s t) := by
  have hshape := hq.numPublic_pos
  have hpublic := hq.numPublic_le
  have hn : q.numConstraints ≤ n₁ := by omega
  simp only [ofReferenceString, ite_throw_eq_ok_iff, bind_eq_ok_iff, Fp.inverse_eq_ok_iff,
    pure_eq_ok_iff, ReferenceString.length_tauG1, ReferenceString.length_tauG2, hq.length_b,
    hq.length_c]
  refine ⟨by omega, by omega, _, ⟨hgamma, rfl⟩, _, ⟨hdelta, rfl⟩, _,
    (mapM_wireTerm_eq_ok_iff hq).2 ⟨hle, rfl⟩, _, mapM_quotientTerm _ hn₁, ?_⟩
  simp only [ofExponents, ReferenceString.ofExponents, ← List.map_take, ← List.map_drop,
    take_powersFrom hn, take_powersFrom hn₂, map_smul_map_smul]

/-- **The second phase computes the key of the secrets**, and is refused only for a program that
does not fit together, for too few powers of `tau`, and for a divisor that is zero. -/
theorem ofReferenceString_ofExponents_eq_ok_iff {t : Phase2Secrets p} {pk : ProvingKey p G₁ G₂} :
    ofReferenceString (ReferenceString.ofExponents n₁ n₂ s) q t = .ok pk ↔
      q.Aligned ∧ q.numConstraints + (q.numConstraints - 1) ≤ n₁ ∧ q.numConstraints ≤ n₂ ∧
        (∀ f ∈ q.a ++ q.b ++ q.c, f.length ≤ n₁) ∧ t.gamma ≠ 0 ∧ t.delta ≠ 0 ∧
        ofExponents q s t = pk := by
  constructor
  · intro h
    have hchecks := h
    simp only [ofReferenceString, ite_throw_eq_ok_iff, bind_eq_ok_iff, Fp.inverse_eq_ok_iff,
      ReferenceString.length_tauG1, ReferenceString.length_tauG2] at hchecks
    obtain ⟨hshape, hpowers, _, ⟨hgamma, -⟩, _, ⟨hdelta, -⟩, _, hterms, -⟩ := hchecks
    have hq : q.Aligned := ⟨by omega, by omega, by omega, by omega⟩
    obtain ⟨hle, -⟩ := (mapM_wireTerm_eq_ok_iff hq).1 hterms
    have hn₁ : q.numConstraints + (q.numConstraints - 1) ≤ n₁ := by omega
    have hn₂ : q.numConstraints ≤ n₂ := by omega
    rw [ofReferenceString_ofExponents hq hn₁ hn₂ hle hgamma hdelta] at h
    exact ⟨hq, hn₁, hn₂, hle, hgamma, hdelta, Except.ok.inj h⟩
  · rintro ⟨hq, hn₁, hn₂, hle, hgamma, hdelta, rfl⟩
    exact ofReferenceString_ofExponents hq hn₁ hn₂ hle hgamma hdelta

/-- **A key that both phases made is the key of their secrets**, for a program that fits together
and divisors other than zero. -/
theorem eq_ofExponents {config : CeremonyConfig} {srs : ReferenceString G₁ G₂}
    (hsrs : ReferenceString.ofSecrets config s = .ok srs) {t : Phase2Secrets p}
    {pk : ProvingKey p G₁ G₂} (hpk : ofReferenceString srs q t = .ok pk) :
    q.Aligned ∧ t.gamma ≠ 0 ∧ t.delta ≠ 0 ∧ pk = ofExponents q s t := by
  obtain ⟨-, -, rfl⟩ := ReferenceString.ofSecrets_eq_ok_iff.1 hsrs
  obtain ⟨hq, -, -, -, hgamma, hdelta, hkey⟩ := ofReferenceString_ofExponents_eq_ok_iff.1 hpk
  exact ⟨hq, hgamma, hdelta, hkey.symm⟩

/-- For a program as lifting makes them, only the number of powers is left to check. -/
theorem ofReferenceString_eq_ok_iff (hq : q.WellShaped) {t : Phase2Secrets p}
    (hgamma : t.gamma ≠ 0) (hdelta : t.delta ≠ 0) {pk : ProvingKey p G₁ G₂} :
    ofReferenceString (ReferenceString.ofExponents n₁ n₂ s) q t = .ok pk ↔
      q.numConstraints + (q.numConstraints - 1) ≤ n₁ ∧ q.numConstraints ≤ n₂ ∧
        ofExponents q s t = pk := by
  rw [ofReferenceString_ofExponents_eq_ok_iff]
  constructor
  · rintro ⟨-, hn₁, hn₂, -, -, -, hpk⟩
    exact ⟨hn₁, hn₂, hpk⟩
  · rintro ⟨hn₁, hn₂, hpk⟩
    have hn : q.numConstraints ≤ n₁ := by omega
    exact ⟨hq.toAligned, hn₁, hn₂, fun f hf ↦ (hq.length_le f hf).trans hn, hgamma, hdelta, hpk⟩

end ProvingKey

end SuccinctProof
