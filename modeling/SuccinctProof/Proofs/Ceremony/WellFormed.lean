import SuccinctProof.Proofs.Ceremony.ReferenceString

/-!
# Well-formed reference strings

`ReferenceString.isWellFormed` sees no secret. It compares pairings of published elements, and each
comparison is an equation between the scalars behind them:

* a list that rises by a factor at every step is the list of the powers of the factor, times its
  first entry (`consecutive_map_iff`). All four lists are checked in this way;
* the lists of the first group are compared with the second element of the list in the other group,
  and the list of the second group with the second element in the first, so all four lists have one
  factor.

A string of multiples of the generators is given by a string over the scalars
(`ReferenceString.multiples`), and the check accepts it exactly when those scalars are the ones that
some secrets give (`isWellFormed_multiples_iff`). When every group element is a multiple of the
generator this covers all strings there are (`isWellFormed_iff_exists_ofSecrets`).
-/

namespace SuccinctProof

variable {p : ℕ}

namespace ReferenceString

/-! ### Rising lists -/

/-- **A list that rises by a factor is a list of powers.** -/
theorem consecutive_map_iff [Modulus p] {α : Type} {related : α → α → Bool} {f : Fp p → α}
    {x : Fp p} (hrelated : ∀ k l, related (f k) (f l) = true ↔ l = k * x) (k : Fp p)
    (ks : List (Fp p)) :
    consecutive related ((k :: ks).map f) = true ↔ k :: ks = powersFrom x k (ks.length + 1) := by
  induction ks generalizing k with
  | nil => exact ⟨fun _ ↦ rfl, fun _ ↦ rfl⟩
  | cons l ks ih =>
    have hpowers : powersFrom x k (ks.length + 1 + 1) =
        k :: powersFrom x (k * x) (ks.length + 1) := rfl
    rw [List.map_cons, List.map_cons, consecutive, Bool.and_eq_true, hrelated, ← List.map_cons,
      ih, List.length_cons, hpowers, List.cons_inj_right]
    constructor
    · rintro ⟨rfl, h⟩
      exact h
    · intro h
      have hl : l = k * x := (List.cons.inj h).1
      exact ⟨hl, hl ▸ h⟩

section Multiples

variable [Fact p.Prime] {G₁ G₂ Gₜ : Type} [AddCommGroup G₁] [Module (Fp p) G₁] [AddCommGroup G₂]
  [Module (Fp p) G₂] [CommGroup Gₜ] [Generated G₁] [Generated G₂] [Pairing G₁ G₂ Gₜ]
  [BilinearPairing G₁ G₂ Gₜ] [DecidableEq Gₜ]

variable (hne : (Pairing.pair (Generated.generator : G₁) (Generated.generator : G₂) : Gₜ) ≠ 1)
include hne

/-- In the first group a list is compared with a factor in the second. -/
theorem risesG1_map_iff (x k : Fp p) (ks : List (Fp p)) :
    risesG1 (x • (Generated.generator : G₂)) ((k :: ks).map (· • (Generated.generator : G₁))) =
      true ↔ k :: ks = powersFrom x k (ks.length + 1) := by
  refine consecutive_map_iff (fun k l ↦ ?_) k ks
  rw [decide_eq_true_eq, Pairing.pair_generators, ← Pairing.power, Pairing.power_inj hne]

/-- In the second group a list is compared with a factor in the first. -/
theorem risesG2_map_iff (x k : Fp p) (ks : List (Fp p)) :
    risesG2 (x • (Generated.generator : G₁)) ((k :: ks).map (· • (Generated.generator : G₂))) =
      true ↔ k :: ks = powersFrom x k (ks.length + 1) := by
  refine consecutive_map_iff (fun k l ↦ ?_) k ks
  rw [decide_eq_true_eq, Pairing.pair_generator_smul, Pairing.pair_generators,
    Pairing.power_inj hne, mul_comm x k]

end Multiples

/-! ### Strings of multiples -/

section Scalars

variable [Modulus p] {G₁ G₂ : Type} [AddCommGroup G₁] [Module (Fp p) G₁] [AddCommGroup G₂]
  [Module (Fp p) G₂] [Generated G₁] [Generated G₂]

/-- The string of the multiples of the generators by the entries of a string over the scalars. -/
def multiples (k : ReferenceString (Fp p) (Fp p)) : ReferenceString G₁ G₂ where
  tauG1 := k.tauG1.map (· • Generated.generator)
  tauG2 := k.tauG2.map (· • Generated.generator)
  alphaTauG1 := k.alphaTauG1.map (· • Generated.generator)
  betaTauG1 := k.betaTauG1.map (· • Generated.generator)
  alphaG1 := k.alphaG1 • Generated.generator
  betaG1 := k.betaG1 • Generated.generator
  betaG2 := k.betaG2 • Generated.generator

/-- The scalars of the string of some secrets. -/
def exponents (n₁ n₂ : ℕ) (s : Phase1Secrets p) : ReferenceString (Fp p) (Fp p) where
  tauG1 := powersFrom s.tau 1 n₁
  tauG2 := powersFrom s.tau 1 n₂
  alphaTauG1 := powersFrom s.tau s.alpha n₁
  betaTauG1 := powersFrom s.tau s.beta n₁
  alphaG1 := s.alpha
  betaG1 := s.beta
  betaG2 := s.beta

theorem multiples_exponents (n₁ n₂ : ℕ) (s : Phase1Secrets p) :
    ((exponents n₁ n₂ s).multiples : ReferenceString G₁ G₂) = ofExponents n₁ n₂ s :=
  rfl

/-- **Every string is one of multiples**, when every group element is. -/
theorem multiples_surjective [LawfulGenerated (Fp p) G₁] [LawfulGenerated (Fp p) G₂] :
    Function.Surjective (multiples : ReferenceString (Fp p) (Fp p) → ReferenceString G₁ G₂) := by
  have h₁ := List.map_surjective_iff.2 (LawfulGenerated.exists_smul_eq (S := Fp p) (G := G₁))
  have h₂ := List.map_surjective_iff.2 (LawfulGenerated.exists_smul_eq (S := Fp p) (G := G₂))
  rintro ⟨t, u, a, b, alpha, beta, beta'⟩
  obtain ⟨t, rfl⟩ := h₁ t
  obtain ⟨u, rfl⟩ := h₂ u
  obtain ⟨a, rfl⟩ := h₁ a
  obtain ⟨b, rfl⟩ := h₁ b
  obtain ⟨alpha, rfl⟩ := LawfulGenerated.exists_smul_eq (S := Fp p) alpha
  obtain ⟨beta, rfl⟩ := LawfulGenerated.exists_smul_eq (S := Fp p) beta
  obtain ⟨beta', rfl⟩ := LawfulGenerated.exists_smul_eq (S := Fp p) beta'
  exact ⟨⟨t, u, a, b, alpha, beta, beta'⟩, rfl⟩

end Scalars

/-! ### The check -/

section Shape

variable {G₁ G₂ Gₜ : Type} [DecidableEq G₁] [DecidableEq G₂] [DecidableEq Gₜ] [Generated G₁]
  [Generated G₂] [Pairing G₁ G₂ Gₜ]

/-- The check looks for the second powers of `tau` and for the first entries of the other lists. -/
theorem exists_cons_of_isWellFormed {srs : ReferenceString G₁ G₂}
    (h : srs.isWellFormed = true) :
    (∃ g tauG gs, srs.tauG1 = g :: tauG :: gs) ∧ (∃ h tauH hs, srs.tauG2 = h :: tauH :: hs) ∧
      (∃ a as, srs.alphaTauG1 = a :: as) ∧ ∃ b bs, srs.betaTauG1 = b :: bs := by
  rw [isWellFormed] at h
  split at h
  · next heq₁ heq₂ heq₃ heq₄ =>
    exact ⟨⟨_, _, _, heq₁⟩, ⟨_, _, _, heq₂⟩, ⟨_, _, heq₃⟩, ⟨_, _, heq₄⟩⟩
  · exact absurd h Bool.false_ne_true

end Shape

section WellFormed

variable [Fact p.Prime] {G₁ G₂ Gₜ : Type} [AddCommGroup G₁] [Module (Fp p) G₁] [AddCommGroup G₂]
  [Module (Fp p) G₂] [CommGroup Gₜ] [Generated G₁] [Generated G₂] [Pairing G₁ G₂ Gₜ]
  [BilinearPairing G₁ G₂ Gₜ]

variable (hne : (Pairing.pair (Generated.generator : G₁) (Generated.generator : G₂) : Gₜ) ≠ 1)
include hne

/-- Different scalars give different strings. -/
theorem multiples_injective :
    Function.Injective (multiples : ReferenceString (Fp p) (Fp p) → ReferenceString G₁ G₂) := by
  have h₁ : Function.Injective fun k : Fp p ↦ k • (Generated.generator : G₁) := fun _ _ h ↦
    (smul_left_inj_of_ne_zero (Pairing.left_ne_zero_of_pair_ne_one hne)).1 h
  have h₂ : Function.Injective fun k : Fp p ↦ k • (Generated.generator : G₂) := fun _ _ h ↦
    (smul_left_inj_of_ne_zero (Pairing.right_ne_zero_of_pair_ne_one hne)).1 h
  intro k l hkl
  rw [multiples, multiples, mk.injEq] at hkl
  obtain ⟨ht, hu, ha, hb, halpha, hbeta, hbeta'⟩ := hkl
  cases k
  cases l
  rw [mk.injEq]
  exact ⟨h₁.list_map ht, h₂.list_map hu, h₁.list_map ha, h₁.list_map hb, h₁ halpha, h₁ hbeta,
    h₂ hbeta'⟩

variable [DecidableEq G₁] [DecidableEq G₂] [DecidableEq Gₜ]

/-- The check, read in the exponent. -/
theorem isWellFormed_multiples_cons_iff {t₀ t₁ u₀ u₁ a₀ b₀ alpha beta beta' : Fp p}
    {t u a b : List (Fp p)} :
    (multiples ⟨t₀ :: t₁ :: t, u₀ :: u₁ :: u, a₀ :: a, b₀ :: b, alpha, beta, beta'⟩ :
        ReferenceString G₁ G₂).isWellFormed = true ↔
      (a.length + 1 = t.length + 2 ∧ b.length + 1 = t.length + 2) ∧
      (t₀ = 1 ∧ u₀ = 1 ∧ a₀ = alpha ∧ b₀ = beta) ∧
      (t₀ :: t₁ :: t = powersFrom u₁ t₀ (t.length + 2) ∧
        a₀ :: a = powersFrom u₁ a₀ (a.length + 1) ∧ b₀ :: b = powersFrom u₁ b₀ (b.length + 1) ∧
        u₀ :: u₁ :: u = powersFrom t₁ u₀ (u.length + 2)) ∧
      beta = beta' := by
  have hleft := Pairing.left_ne_zero_of_pair_ne_one hne
  have hright := Pairing.right_ne_zero_of_pair_ne_one hne
  have hpair : (Pairing.pair (beta • (Generated.generator : G₁)) (Generated.generator : G₂) :
      Gₜ) = Pairing.pair (Generated.generator : G₁) (beta' • (Generated.generator : G₂)) ↔
        beta = beta' := by
    rw [Pairing.pair_generator_smul, ← Pairing.power, Pairing.power_inj hne]
  -- the lists of the first group are compared with `u₁`, the one of the second with `t₁`
  have hrises₁ : ∀ k ks, risesG1 (u₁ • (Generated.generator : G₂))
      (k • (Generated.generator : G₁) :: ks.map (· • Generated.generator)) = true ↔
        k :: ks = powersFrom u₁ k (ks.length + 1) := risesG1_map_iff hne u₁
  have hrises₂ := risesG2_map_iff hne t₁ u₀ (u₁ :: u)
  have hrises := hrises₁ t₀ (t₁ :: t)
  simp only [List.map_cons] at hrises hrises₂
  simp only [multiples, isWellFormed, List.map_cons, Bool.and_eq_true, decide_eq_true_eq,
    List.length_cons, List.length_map, smul_left_inj_of_ne_zero hleft,
    smul_eq_self_iff_of_ne_zero hleft, smul_eq_self_iff_of_ne_zero hright, hrises, hrises₁,
    hrises₂, hpair, and_assoc]

/-- **The scalars of a well-formed string come from secrets.** -/
theorem isWellFormed_multiples_iff (k : ReferenceString (Fp p) (Fp p)) :
    (k.multiples : ReferenceString G₁ G₂).isWellFormed = true ↔
      2 ≤ k.tauG1.length ∧ 2 ≤ k.tauG2.length ∧
        ∃ s, exponents k.tauG1.length k.tauG2.length s = k := by
  constructor
  · intro h
    obtain ⟨⟨_, _, _, h₁⟩, ⟨_, _, _, h₂⟩, ⟨_, _, h₃⟩, ⟨_, _, h₄⟩⟩ := exists_cons_of_isWellFormed h
    obtain ⟨t, u, a, b, alpha, beta, beta'⟩ := k
    obtain ⟨t₀, _, rfl, -, h₁⟩ := List.map_eq_cons_iff.1 h₁
    obtain ⟨t₁, t, rfl, -, -⟩ := List.map_eq_cons_iff.1 h₁
    obtain ⟨u₀, _, rfl, -, h₂⟩ := List.map_eq_cons_iff.1 h₂
    obtain ⟨u₁, u, rfl, -, -⟩ := List.map_eq_cons_iff.1 h₂
    obtain ⟨a₀, a, rfl, -, -⟩ := List.map_eq_cons_iff.1 h₃
    obtain ⟨b₀, b, rfl, -, -⟩ := List.map_eq_cons_iff.1 h₄
    obtain ⟨⟨hla, hlb⟩, ⟨rfl, rfl, rfl, rfl⟩, ⟨ht, ha, hb, hu⟩, rfl⟩ :=
      (isWellFormed_multiples_cons_iff hne).1 h
    -- the second entry of the first list is the factor of all lists but the second
    have htau : t₁ = u₁ := by
      have hsecond := congrArg List.head? (congrArg List.tail ht)
      simpa only [powersFrom, List.tail_cons, List.head?_cons, Option.some_inj, one_mul] using
        hsecond
    rw [htau] at hu
    rw [hla] at ha
    rw [hlb] at hb
    refine ⟨by simp only [List.length_cons]; omega, by simp only [List.length_cons]; omega,
      ⟨u₁, a₀, b₀⟩, ?_⟩
    simp only [exponents, List.length_cons]
    rw [← ht, ← hu, ← ha, ← hb]
  · rintro ⟨h₁, h₂, ⟨tau, alpha, beta⟩, hk⟩
    obtain ⟨m, hm⟩ := Nat.exists_eq_add_of_le' h₁
    obtain ⟨l, hl⟩ := Nat.exists_eq_add_of_le' h₂
    rw [← hk, hm, hl]
    refine (isWellFormed_multiples_cons_iff hne).2 ⟨?_, ⟨rfl, rfl, rfl, rfl⟩, ?_, rfl⟩
    · simp only [length_powersFrom, and_self]
    · simp only [length_powersFrom, List.length_cons, powersFrom, one_mul, and_self]

/-- **The check accepts exactly the strings of secrets.** Take prime order, groups of multiples of
their generators, and a bilinear pairing that is not trivial. A string is accepted when it has two
powers of `tau` in each group at least, and is what the first phase computes with these sizes from
some secrets, be they zero or not. Nothing else is accepted. -/
theorem isWellFormed_iff_exists_ofSecrets [LawfulGenerated (Fp p) G₁] [LawfulGenerated (Fp p) G₂]
    (range : Option (UInt64 × UInt64)) (srs : ReferenceString G₁ G₂) :
    srs.isWellFormed = true ↔ 2 ≤ srs.tauG1.length ∧ 2 ≤ srs.tauG2.length ∧
      ∃ s : Phase1Secrets p,
        ofSecrets ⟨srs.tauG1.length, srs.tauG2.length, range⟩ s = .ok srs := by
  obtain ⟨k, rfl⟩ : ∃ k : ReferenceString (Fp p) (Fp p), k.multiples = srs :=
    multiples_surjective srs
  have hlen₁ : (k.multiples : ReferenceString G₁ G₂).tauG1.length = k.tauG1.length :=
    List.length_map ..
  have hlen₂ : (k.multiples : ReferenceString G₁ G₂).tauG2.length = k.tauG2.length :=
    List.length_map ..
  rw [isWellFormed_multiples_iff hne, hlen₁, hlen₂]
  refine and_congr_right fun h₁ ↦ and_congr_right fun h₂ ↦ exists_congr fun s ↦ ?_
  rw [ofSecrets_eq_ok_iff, ← multiples_exponents, (multiples_injective hne).eq_iff]
  exact ⟨fun h ↦ ⟨Nat.ne_zero_of_lt h₁, Nat.ne_zero_of_lt h₂, h⟩, fun h ↦ h.2.2⟩

end WellFormed

/-- With the scalars as groups, the string of three secrets is accepted. When the list in the second
group has powers of another `tau`, no secrets give the string. -/
theorem isWellFormed_threePowers :
    (Pairing.pair (Generated.generator : Fp 101) (Generated.generator : Fp 101) :
      Multiplicative (Fp 101)) ≠ 1 ∧
    (⟨[1, 5, 25], [1, 5], [6, 30, 49], [7, 35, 74], 6, 7, 7⟩ :
      ReferenceString (Fp 101) (Fp 101)).isWellFormed = true ∧
    ∀ s : Phase1Secrets 101, ofSecrets ⟨3, 2, none⟩ s ≠
      .ok (⟨[1, 5, 25], [1, 4], [6, 30, 49], [7, 35, 74], 6, 7, 7⟩ :
        ReferenceString (Fp 101) (Fp 101)) := by
  have hne : (Pairing.pair (Generated.generator : Fp 101) (Generated.generator : Fp 101) :
      Multiplicative (Fp 101)) ≠ 1 := by decide
  have hiff (srs : ReferenceString (Fp 101) (Fp 101)) : srs.isWellFormed = true ↔ _ :=
    isWellFormed_iff_exists_ofSecrets (p := 101) hne none srs
  refine ⟨hne, (hiff _).2 ⟨by decide, by decide, ⟨5, 6, 7⟩, rfl⟩, fun s h ↦ ?_⟩
  have hrejected : ¬ (⟨[1, 5, 25], [1, 4], [6, 30, 49], [7, 35, 74], 6, 7, 7⟩ :
      ReferenceString (Fp 101) (Fp 101)).isWellFormed = true := by decide
  rw [hiff] at hrejected
  exact hrejected ⟨by decide, by decide, s, h⟩

end ReferenceString

end SuccinctProof
