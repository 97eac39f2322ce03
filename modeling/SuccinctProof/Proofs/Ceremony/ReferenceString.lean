import SuccinctProof.Ceremony.ReferenceString
import SuccinctProof.Proofs.PairingGroup
import SuccinctProof.Proofs.Refusal

/-!
# Reference strings in the exponent

A reference string is determined by its sizes and its secrets (`ReferenceString.ofExponents`).
Computing one from secrets gives that string, and a contribution turns the string of some secrets
into the string of the products, so any number of contributions leave a string of the same form
(`foldlM_contribute`). Whatever is shown of the strings of all secrets therefore holds of what a
ceremony with several participants publishes.

Since multiplication of residues is commutative, the order of the participants leaves no trace
(`foldlM_contribute_ofSecrets`).
-/

namespace SuccinctProof

variable {p : ℕ} [Modulus p]

/-- Secrets are combined by multiplying each with its counterpart. -/
instance : Mul (Phase1Secrets p) :=
  ⟨fun s t ↦ ⟨s.tau * t.tau, s.alpha * t.alpha, s.beta * t.beta⟩⟩

/-- Secrets combined one after the other are multiplied by the products. -/
theorem Phase1Secrets.foldl_mul (further : List (Phase1Secrets p)) (s : Phase1Secrets p) :
    further.foldl (fun s t ↦ t * s) s =
      ⟨s.tau * (further.map (·.tau)).prod, s.alpha * (further.map (·.alpha)).prod,
        s.beta * (further.map (·.beta)).prod⟩ := by
  induction further generalizing s with
  | nil => simp only [List.foldl_nil, List.map_nil, List.prod_nil, mul_one]
  | cons t further ih =>
    have hmul : t * s = ⟨t.tau * s.tau, t.alpha * s.alpha, t.beta * s.beta⟩ := rfl
    rw [List.foldl_cons, ih, hmul]
    simp only [List.map_cons, List.prod_cons]
    congr 1 <;> ring

namespace ReferenceString

variable {G₁ G₂ : Type} [AddCommGroup G₁] [Module (Fp p) G₁] [AddCommGroup G₂] [Module (Fp p) G₂]

/-- **Scaling powers by powers gives the powers of the product.** -/
theorem scaleByPowers_map {G : Type} [AddCommGroup G] [Module (Fp p) G] (x y s t : Fp p) (n : ℕ)
    (g : G) : scaleByPowers x s ((powersFrom y t n).map (· • g)) =
      (powersFrom (x * y) (s * t) n).map (· • g) := by
  rw [scaleByPowers, List.length_map, length_powersFrom]
  induction n generalizing s t with
  | zero => rfl
  | succ n ih =>
    rw [powersFrom, powersFrom, powersFrom, List.map_cons, List.zipWith_cons_cons, ih,
      List.map_cons, smul_smul, mul_mul_mul_comm]

variable [Generated G₁] [Generated G₂]

/-- The string of the given secrets, with the given numbers of powers. -/
def ofExponents (n₁ n₂ : ℕ) (secrets : Phase1Secrets p) : ReferenceString G₁ G₂ where
  tauG1 := (powersFrom secrets.tau 1 n₁).map (· • Generated.generator)
  tauG2 := (powersFrom secrets.tau 1 n₂).map (· • Generated.generator)
  alphaTauG1 := (powersFrom secrets.tau secrets.alpha n₁).map (· • Generated.generator)
  betaTauG1 := (powersFrom secrets.tau secrets.beta n₁).map (· • Generated.generator)
  alphaG1 := secrets.alpha • Generated.generator
  betaG1 := secrets.beta • Generated.generator
  betaG2 := secrets.beta • Generated.generator

theorem length_tauG1 (n₁ n₂ : ℕ) (secrets : Phase1Secrets p) :
    (ofExponents n₁ n₂ secrets : ReferenceString G₁ G₂).tauG1.length = n₁ := by
  rw [ofExponents, List.length_map, length_powersFrom]

theorem length_tauG2 (n₁ n₂ : ℕ) (secrets : Phase1Secrets p) :
    (ofExponents n₁ n₂ secrets : ReferenceString G₁ G₂).tauG2.length = n₂ := by
  rw [ofExponents, List.length_map, length_powersFrom]

/-- **Secrets give their string**, unless a size is zero. -/
theorem ofSecrets_eq_ok_iff {config : CeremonyConfig} {secrets : Phase1Secrets p}
    {srs : ReferenceString G₁ G₂} : ofSecrets config secrets = .ok srs ↔
      config.powersG1 ≠ 0 ∧ config.powersG2 ≠ 0 ∧
        ofExponents config.powersG1 config.powersG2 secrets = srs := by
  rw [ofSecrets]
  split
  · next h =>
    constructor
    · rintro ⟨⟩
    · rintro ⟨h₁, h₂, -⟩
      exact absurd h (not_or.2 ⟨h₁, h₂⟩)
  · next h =>
    obtain ⟨h₁, h₂⟩ := not_or.1 h
    exact ⟨fun heq ↦ ⟨h₁, h₂, Except.ok.inj heq⟩, fun heq ↦ congrArg Except.ok heq.2.2⟩

/-- **A contribution multiplies its secrets into the string.** -/
theorem contribute_ofExponents (n₁ n₂ : ℕ) (secrets further : Phase1Secrets p) :
    contribute (ofExponents n₁ n₂ secrets : ReferenceString G₁ G₂) further =
      .ok (ofExponents n₁ n₂ (further * secrets)) := by
  rw [contribute, if_neg]
  · simp only [ofExponents, scaleByPowers_map, smul_smul, mul_one]
    rfl
  · simp only [ofExponents, List.length_map, length_powersFrom, max_self, not_lt, le_max_left]

/-- Contributions one after the other multiply all their secrets into the string. -/
theorem foldlM_contribute (n₁ n₂ : ℕ) (secrets : Phase1Secrets p)
    (further : List (Phase1Secrets p)) :
    further.foldlM contribute (ofExponents n₁ n₂ secrets : ReferenceString G₁ G₂) =
      .ok (ofExponents n₁ n₂ (further.foldl (fun s t ↦ t * s) secrets)) := by
  induction further generalizing secrets with
  | nil => rfl
  | cons t further ih =>
    rw [List.foldlM_cons, contribute_ofExponents]
    exact ih (t * secrets)

/-- **Contributions multiply, in any order.** Take secrets of a first phase and any sizes other than
zero, in whichever group the larger one is. Contributions to their string give the string that the
first phase computes from the products of all secrets, and so does any rearrangement of them. -/
theorem foldlM_contribute_ofSecrets {config : CeremonyConfig} (h₁ : config.powersG1 ≠ 0)
    (h₂ : config.powersG2 ≠ 0) (secrets : Phase1Secrets p) (further : List (Phase1Secrets p)) :
    ∃ first last : ReferenceString G₁ G₂,
      ofSecrets config secrets = .ok first ∧
      ofSecrets config (⟨secrets.tau * (further.map (·.tau)).prod,
        secrets.alpha * (further.map (·.alpha)).prod,
        secrets.beta * (further.map (·.beta)).prod⟩ : Phase1Secrets p) = .ok last ∧
      further.foldlM contribute first = .ok last ∧
      ∀ reordered : List (Phase1Secrets p), reordered.Perm further →
        reordered.foldlM contribute first = .ok last := by
  refine ⟨_, _, ofSecrets_eq_ok_iff.2 ⟨h₁, h₂, rfl⟩, ofSecrets_eq_ok_iff.2 ⟨h₁, h₂, rfl⟩, ?_, ?_⟩
  · rw [foldlM_contribute, Phase1Secrets.foldl_mul]
  · intro reordered hperm
    rw [foldlM_contribute, Phase1Secrets.foldl_mul, (hperm.map _).prod_eq, (hperm.map _).prod_eq,
      (hperm.map _).prod_eq]

/-- The second group has more powers, and one participant brings a zero. -/
theorem threeContributions_ofSecrets :
    (⟨2, 4, none⟩ : CeremonyConfig).powersG1 ≠ 0 ∧ (⟨2, 4, none⟩ : CeremonyConfig).powersG2 ≠ 0 ∧
    ∃ first last : ReferenceString (Fp 101) (Fp 101),
      ofSecrets ⟨2, 4, none⟩ (⟨5, 6, 7⟩ : Phase1Secrets 101) = .ok first ∧
      ofSecrets ⟨2, 4, none⟩ (⟨80, 0, 100⟩ : Phase1Secrets 101) = .ok last ∧
      [(⟨2, 3, 4⟩ : Phase1Secrets 101), ⟨8, 0, 9⟩, ⟨1, 1, 2⟩].foldlM contribute first = .ok last ∧
      [(⟨8, 0, 9⟩ : Phase1Secrets 101), ⟨1, 1, 2⟩, ⟨2, 3, 4⟩].foldlM contribute first =
        .ok last := by
  have h₁ : (⟨2, 4, none⟩ : CeremonyConfig).powersG1 ≠ 0 := by decide
  have h₂ : (⟨2, 4, none⟩ : CeremonyConfig).powersG2 ≠ 0 := by decide
  refine ⟨h₁, h₂, ?_⟩
  obtain ⟨first, last, hfirst, hlast, hfold, hreordered⟩ :
      ∃ first last : ReferenceString (Fp 101) (Fp 101), _ ∧ _ ∧ _ ∧ _ :=
    foldlM_contribute_ofSecrets h₁ h₂ (⟨5, 6, 7⟩ : Phase1Secrets 101)
      [⟨2, 3, 4⟩, ⟨8, 0, 9⟩, ⟨1, 1, 2⟩]
  exact ⟨first, last, hfirst, hlast, hfold, hreordered _ (by decide)⟩

end ReferenceString

end SuccinctProof
