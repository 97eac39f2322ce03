import SuccinctProof.Proofs.Ceremony.ClearKeys
import SuccinctProof.Proofs.Ceremony.Secrets
import SuccinctProof.Proofs.ScalarField

/-!
# Setting up

`ProvingKey.setup` draws the secrets of the first phase, refuses sizes that are zero, and draws the
secrets of the second phase only then (`setup_eq_some_iff`).

Since no secret that is drawn is zero, the second phase finds nothing to divide by that is zero. For
a program as lifting makes them only the sizes are left to fail (`setup_outcome`), and these are
compared with the number of constraints (`CeremonyConfig.Suffices`).
-/

namespace SuccinctProof

/-- The sizes are enough for a number of constraints. -/
def CeremonyConfig.Suffices (config : CeremonyConfig) (n : ℕ) : Prop :=
  2 * n - 1 ≤ config.powersG1 ∧ n ≤ config.powersG2

instance (config : CeremonyConfig) (n : ℕ) : Decidable (config.Suffices n) :=
  inferInstanceAs (Decidable (_ ∧ _))

variable {p : ℕ} [Modulus p] {G₁ G₂ : Type} [AddCommGroup G₁] [Module (Fp p) G₁] [AddCommGroup G₂]
  [Module (Fp p) G₂] [Generated G₁] [Generated G₂]

/-- The first phase computes the string of its secrets, or refuses a size that is zero. -/
theorem ReferenceString.ofSecrets_eq_ite (config : CeremonyConfig) (secrets : Phase1Secrets p) :
    (ofSecrets config secrets : Except Error (ReferenceString G₁ G₂)) =
      if config.powersG1 = 0 ∨ config.powersG2 = 0 then .error .degreeTooLarge
      else .ok (ofExponents config.powersG1 config.powersG2 secrets) :=
  rfl

namespace ProvingKey

variable {config : CeremonyConfig} {q : Qap p} {attempts : ℕ} {s s' : WordStream}

/-- **What a set-up does.** -/
theorem setup_eq_some_iff {r : Except Error (ProvingKey p G₁ G₂)} :
    setup config q attempts s = some (r, s') ↔
      ∃ (secrets : Phase1Secrets p) (s₁ : WordStream),
        Phase1Secrets.sample config attempts s = some (secrets, s₁) ∧
        ((config.powersG1 = 0 ∨ config.powersG2 = 0) ∧ r = .error .degreeTooLarge ∧ s' = s₁ ∨
          ¬ (config.powersG1 = 0 ∨ config.powersG2 = 0) ∧
            ∃ t : Phase2Secrets p, Phase2Secrets.sample config attempts s₁ = some (t, s') ∧
              r = ofReferenceString (ReferenceString.ofExponents config.powersG1 config.powersG2
                secrets) q t) := by
  rw [setup, Sampler.bind_eq_some_iff]
  refine exists_congr fun secrets ↦ exists_congr fun s₁ ↦ and_congr_right fun _ ↦ ?_
  rw [ReferenceString.ofSecrets_eq_ite]
  by_cases hzero : config.powersG1 = 0 ∨ config.powersG2 = 0
  · rw [if_pos hzero]
    dsimp only
    rw [Sampler.pure_eq_some_iff, Prod.mk.injEq]
    simp only [hzero, true_and, not_true_eq_false, false_and, or_false, eq_comm]
  · rw [if_neg hzero]
    dsimp only
    rw [Sampler.bind_eq_some_iff]
    simp only [hzero, false_and, false_or, not_false_eq_true, true_and,
      Sampler.pure_eq_some_iff, Prod.mk.injEq]
    constructor
    · rintro ⟨t, s₂, ht, rfl, rfl⟩
      exact ⟨t, ht, rfl⟩
    · rintro ⟨t, ht, rfl⟩
      exact ⟨t, s', ht, rfl, rfl⟩

/-- **A set-up ends when the draws end that it makes**: those of the first phase, and unless a size
is zero those of the second. -/
theorem exists_setup_iff :
    (∃ (r : Except Error (ProvingKey p G₁ G₂)) (s' : WordStream),
      setup config q attempts s = some (r, s')) ↔
      ∃ (secrets : Phase1Secrets p) (s₁ : WordStream),
        Phase1Secrets.sample config attempts s = some (secrets, s₁) ∧
          (config.powersG1 ≠ 0 → config.powersG2 ≠ 0 → ∃ (t : Phase2Secrets p) (s₂ : WordStream),
            Phase2Secrets.sample config attempts s₁ = some (t, s₂)) := by
  simp only [setup_eq_some_iff]
  constructor
  · rintro ⟨r, s', secrets, s₁, hsecrets, h⟩
    refine ⟨secrets, s₁, hsecrets, fun h₁ h₂ ↦ ?_⟩
    obtain ⟨hzero, -, -⟩ | ⟨-, t, ht, -⟩ := h
    · exact absurd hzero (not_or.2 ⟨h₁, h₂⟩)
    · exact ⟨t, s', ht⟩
  · rintro ⟨secrets, s₁, hsecrets, h⟩
    by_cases hzero : config.powersG1 = 0 ∨ config.powersG2 = 0
    · exact ⟨_, _, secrets, s₁, hsecrets, .inl ⟨hzero, rfl, rfl⟩⟩
    · obtain ⟨h₁, h₂⟩ := not_or.1 hzero
      obtain ⟨t, s₂, ht⟩ := h h₁ h₂
      exact ⟨_, s₂, secrets, s₁, hsecrets, .inr ⟨hzero, t, ht, rfl⟩⟩

end ProvingKey

/-! ### Lifted programs -/

namespace ProvingKey

variable {p : ℕ} [Fact p.Prime] {G₁ G₂ : Type} [AddCommGroup G₁] [Module (Fp p) G₁]
  [AddCommGroup G₂] [Module (Fp p) G₂] [Generated G₁] [Generated G₂] {m : RankOneSystem p}
  {numPublic : ℕ} {q : Qap p} {config : CeremonyConfig} {attempts : ℕ} {s s' : WordStream}

/-- **For a lifted program, enough powers give the key of the secrets that are drawn.** -/
theorem setup_of_sample (hp : config.RangeBelow p) (hq : q.Lifts m numPublic)
    (hconfig : config.Suffices m.numConstraints) {secrets : Phase1Secrets p} {s₁ : WordStream}
    (hsecrets : Phase1Secrets.sample config attempts s = some (secrets, s₁))
    {t : Phase2Secrets p} (ht : Phase2Secrets.sample config attempts s₁ = some (t, s')) :
    setup config q attempts s = some (.ok (ofExponents q secrets t : ProvingKey p G₁ G₂), s') := by
  obtain ⟨h₁, h₂⟩ := hconfig
  have hn := hq.numConstraints_eq
  have hpos := hq.constraints_pos
  obtain ⟨hdelta, hgamma⟩ := Phase2Secrets.ne_zero_of_sample hp ht
  refine setup_eq_some_iff.2 ⟨secrets, s₁, hsecrets, .inr ⟨by omega, t, ht, ?_⟩⟩
  exact ((ofReferenceString_eq_ok_iff hq.wellShaped hgamma hdelta).2
    ⟨by omega, by omega, rfl⟩).symm

/-- **For a lifted program, a set-up fails for the sizes alone.** -/
theorem setup_outcome (hp : config.RangeBelow p) (hq : q.Lifts m numPublic)
    {r : Except Error (ProvingKey p G₁ G₂)} (h : setup config q attempts s = some (r, s')) :
    ∃ (secrets : Phase1Secrets p) (s₁ : WordStream),
      Phase1Secrets.sample config attempts s = some (secrets, s₁) ∧
      (config.Suffices m.numConstraints ∧ (∃ t : Phase2Secrets p,
          Phase2Secrets.sample config attempts s₁ = some (t, s') ∧
            r = .ok (ofExponents q secrets t)) ∨
        ¬ config.Suffices m.numConstraints ∧ r = .error .degreeTooLarge) := by
  obtain ⟨secrets, s₁, hsecrets, ⟨hzero, rfl, rfl⟩ | ⟨-, t, ht, rfl⟩⟩ := setup_eq_some_iff.1 h
  · refine ⟨secrets, s', hsecrets, .inr ⟨fun hconfig ↦ ?_, rfl⟩⟩
    obtain ⟨h₁, h₂⟩ := hconfig
    have hpos := hq.constraints_pos
    omega
  · refine ⟨secrets, s₁, hsecrets, ?_⟩
    by_cases hconfig : config.Suffices m.numConstraints
    · refine .inl ⟨hconfig, t, ht, ?_⟩
      have hok := (setup_of_sample hp hq hconfig hsecrets ht).symm.trans h
      exact (Prod.mk.inj (Option.some.inj hok)).1.symm
    · refine .inr ⟨hconfig, ofReferenceString_of_short hq.wellShaped.toAligned ?_ t⟩
      rw [ReferenceString.length_tauG1, ReferenceString.length_tauG2, hq.numConstraints_eq]
      rw [CeremonyConfig.Suffices] at hconfig
      omega

end ProvingKey

/-! ### Systems of any height -/

section OwnSquare

variable {p : ℕ} [Fact p.Prime]

/-- The only wire is its own square, as often as is said. -/
def RankOneSystem.ownSquare (n : ℕ) : RankOneSystem p :=
  ⟨.replicate n [1], .replicate n [1], .replicate n [1], 1⟩

namespace RankOneSystem

theorem sameHeight_ownSquare (n : ℕ) : (ownSquare n : RankOneSystem p).SameHeight :=
  ⟨rfl, rfl⟩

@[simp] theorem numConstraints_ownSquare (n : ℕ) :
    (ownSquare n : RankOneSystem p).numConstraints = n :=
  List.length_replicate ..

/-- There are lifted systems of every height. -/
theorem exists_ofRankOneSystem_ownSquare {n : ℕ} (hpos : 0 < n) (hlt : n < p) :
    ∃ q, Qap.ofRankOneSystem (ownSquare n : RankOneSystem p) 1 = .ok q := by
  have hwide : ∀ row ∈ (ownSquare n : RankOneSystem p).a ++ (ownSquare n).b ++ (ownSquare n).c,
      1 ≤ row.length := by
    intro row hrow
    simp only [ownSquare, List.mem_append, List.mem_replicate, or_self] at hrow
    rw [hrow.2, List.length_singleton]
  obtain ⟨q, hq, -⟩ := Qap.exists_lifts (m := ownSquare n) (sameHeight_ownSquare n)
    (by rwa [numConstraints_ownSquare]) (by rwa [numConstraints_ownSquare]) hwide Nat.one_pos le_rfl
  exact ⟨q, hq⟩

end RankOneSystem

end OwnSquare

/-! ### Set-ups -/

namespace ProvingKey

/-- **Sampled secrets can be used, and a set-up is refused for its sizes alone.** Take a modulus
above all words, and any configuration, bound on the attempts and stream. A secret that is drawn is
not zero, and if there is a range it is an integer of the range cut off below one. For a system of
one height below the modulus that was lifted, a set-up ends whenever its draws do; when it ends, it
gives a key if the sizes are enough for the number of constraints, and otherwise says that they are
not.

The modulus is above all words because a range may end at the largest word: a range that reaches up
to a multiple of the modulus could give that multiple, whose residue is zero. -/
theorem setup_refused_iff_not_suffices {p : ℕ} [Fact p.Prime] {G₁ G₂ : Type} [AddCommGroup G₁]
    [Module (Fp p) G₁] [AddCommGroup G₂] [Module (Fp p) G₂] [Generated G₁] [Generated G₂]
    (hp : UInt64.size ≤ p) (config : CeremonyConfig) (attempts : ℕ) (s : WordStream) :
    (∀ (x : Fp p) (s' : WordStream), config.secret attempts s = some (x, s') → x ≠ 0 ∧
      ∀ low high : UInt64, config.secretRange = some (low, high) →
        ∃ k : ℕ, max low.toNat 1 ≤ k ∧ k ≤ max high.toNat (max low.toNat 1) ∧ x = k) ∧
    ∀ (m : RankOneSystem p) (numPublic : ℕ) (q : Qap p), m.SameHeight → m.numConstraints < p →
      Qap.ofRankOneSystem m numPublic = .ok q →
      ((∃ (r : Except Error (ProvingKey p G₁ G₂)) (s' : WordStream),
          setup config q attempts s = some (r, s')) ↔
        ∃ (secrets : Phase1Secrets p) (s₁ : WordStream),
          Phase1Secrets.sample config attempts s = some (secrets, s₁) ∧
            (config.powersG1 ≠ 0 → config.powersG2 ≠ 0 →
              ∃ (t : Phase2Secrets p) (s₂ : WordStream),
                Phase2Secrets.sample config attempts s₁ = some (t, s₂))) ∧
      ∀ (r : Except Error (ProvingKey p G₁ G₂)) (s' : WordStream),
        setup config q attempts s = some (r, s') →
          ((∃ pk, r = .ok pk) ↔ config.Suffices m.numConstraints) ∧
          (r = .error .degreeTooLarge ↔ ¬ config.Suffices m.numConstraints) := by
  have hrange : config.RangeBelow p := CeremonyConfig.rangeBelow_of_size_le hp
  refine ⟨fun x s' h ↦ ⟨CeremonyConfig.secret_ne_zero hrange h, fun low high hrange ↦
    CeremonyConfig.exists_of_secret hrange h⟩, fun m numPublic q hm hlt hq ↦ ?_⟩
  refine ⟨exists_setup_iff, fun r s' h ↦ ?_⟩
  obtain ⟨_, _, -, hr⟩ := setup_outcome hrange (Qap.lifts_of_eq_ok hm hlt hq) h
  obtain ⟨hconfig, _, -, rfl⟩ | ⟨hconfig, rfl⟩ := hr
  · exact ⟨⟨fun _ ↦ hconfig, fun _ ↦ ⟨_, rfl⟩⟩, nofun, fun h ↦ absurd hconfig h⟩
  · exact ⟨⟨nofun, fun h ↦ absurd h hconfig⟩, fun _ ↦ hconfig, fun _ ↦ rfl⟩

/-- On a stream of the largest words a range from zero gives its largest integer, and two
constraints are set up with three powers in the first group. With two powers they are refused, on
secrets from a range that is empty. -/
theorem setup_twoConstraints :
    UInt64.size ≤ Bls12381.r ∧
    (RankOneSystem.ownSquare 2 : RankOneSystem Bls12381.r).SameHeight ∧
    (RankOneSystem.ownSquare 2 : RankOneSystem Bls12381.r).numConstraints < Bls12381.r ∧
    ∃ q : Qap Bls12381.r, Qap.ofRankOneSystem (RankOneSystem.ownSquare 2) 1 = .ok q ∧
    (∃ s', CeremonyConfig.secret ⟨3, 2, some (0, 0xFFFFFFFFFFFFFFFF)⟩ 1
        (.seeded (.replicate 5 0xFFFFFFFFFFFFFFFF) 0) =
          some (((0xFFFFFFFFFFFFFFFF : ℕ) : Fp Bls12381.r), s')) ∧
    ((0xFFFFFFFFFFFFFFFF : ℕ) : Fp Bls12381.r) ≠ 0 ∧
    (∃ (pk : ProvingKey Bls12381.r (Fp Bls12381.r) (Fp Bls12381.r)) (s' : WordStream),
      setup ⟨3, 2, some (0, 0xFFFFFFFFFFFFFFFF)⟩ q 1
        (.seeded (.replicate 5 0xFFFFFFFFFFFFFFFF) 0) = some (.ok pk, s')) ∧
    ∃ s', (setup ⟨2, 2, some (9, 4)⟩ q 1 (.seeded (.replicate 5 0) 0) :
      Option (Except Error (ProvingKey Bls12381.r (Fp Bls12381.r) (Fp Bls12381.r)) × _)) =
        some (.error .degreeTooLarge, s') := by
  have hp : UInt64.size ≤ Bls12381.r := by decide
  have hm := RankOneSystem.sameHeight_ownSquare (p := Bls12381.r) 2
  have hlt : (RankOneSystem.ownSquare 2 : RankOneSystem Bls12381.r).numConstraints < Bls12381.r := by
    decide
  obtain ⟨q, hq⟩ := RankOneSystem.exists_ofRankOneSystem_ownSquare (p := Bls12381.r) Nat.two_pos hlt
  -- the scalars themselves stand for the groups
  have hscalars := @setup_refused_iff_not_suffices Bls12381.r _ (Fp Bls12381.r) (Fp Bls12381.r)
    _ _ _ _ _ _ hp
  obtain ⟨hsecret, henough⟩ := hscalars ⟨3, 2, some (0, 0xFFFFFFFFFFFFFFFF)⟩ 1
    (.seeded (.replicate 5 0xFFFFFFFFFFFFFFFF) 0)
  obtain ⟨-, hshort⟩ := hscalars ⟨2, 2, some (9, 4)⟩ 1 (.seeded (.replicate 5 0) 0)
  obtain ⟨hends, hresult⟩ := henough _ _ q hm hlt hq
  obtain ⟨hends', hresult'⟩ := hshort _ _ q hm hlt hq
  obtain ⟨r, s', h⟩ := hends.2 ⟨_, _, rfl, fun _ _ ↦ ⟨_, _, rfl⟩⟩
  obtain ⟨r', s'', h'⟩ := hends'.2 ⟨_, _, rfl, fun _ _ ↦ ⟨_, _, rfl⟩⟩
  obtain ⟨pk, rfl⟩ := (hresult r s' h).1.2 (by decide)
  obtain rfl := (hresult' r' s'' h').2.2 (by decide)
  exact ⟨hp, hm, hlt, q, hq, ⟨_, rfl⟩, (hsecret _ _ rfl).1, ⟨pk, s', h⟩, s'', h'⟩

end ProvingKey

end SuccinctProof
