import SuccinctProof.Proofs.Ceremony.WellFormed

/-!
# Honest runs of the first phase

What the first phase and any contributions publish is the string of some secrets, and the lists of
such a string rise by its `tau` at every step (`consecutive_map_powersFrom`). The self-check
therefore sees nothing wrong with it except its sizes, since it asks for a second power in both
groups (`isWellFormed_ofExponents_iff`). Only that the pairing is bilinear is used; it may be
trivial.

The smallest sizes for `n` constraints are `2 * n - 1` and `n`, as far as 64 binary digits can hold
them. One constraint needs one power in each group, which the check does not accept.
-/

namespace SuccinctProof

/-! ### The smallest sizes -/

namespace CeremonyConfig

variable (n : ℕ)

/-- The number of powers in the first group is odd, so it does not vanish when it is cut off. -/
theorem powersG1_forConstraints_ne_zero : (forConstraints n).powersG1 ≠ 0 := by
  have hsize : UInt64.size = 2 * 2 ^ 63 := rfl
  rw [forConstraints, hsize]
  dsimp only
  omega

theorem powersG2_forConstraints_ne_zero : (forConstraints n).powersG2 ≠ 0 := by
  rw [forConstraints]
  dsimp only
  omega

/-- There are two powers in each group from two constraints on, unless the number for the first
group is cut off to one. -/
theorem two_le_forConstraints_iff :
    2 ≤ (forConstraints n).powersG1 ∧ 2 ≤ (forConstraints n).powersG2 ↔
      2 ≤ n ∧ n % 2 ^ 63 ≠ 1 := by
  have hsize : UInt64.size = 2 * 2 ^ 63 := rfl
  rw [forConstraints, hsize]
  dsimp only
  omega

end CeremonyConfig

namespace ReferenceString

variable {p : ℕ} [Modulus p]

/-! ### Powers rise -/

/-- **The powers of a factor rise by it at every step.** -/
theorem consecutive_map_powersFrom {α : Type} {related : α → α → Bool} {f : Fp p → α} {x : Fp p}
    (hrelated : ∀ k, related (f k) (f (k * x)) = true) (k : Fp p) (n : ℕ) :
    consecutive related ((powersFrom x k n).map f) = true := by
  induction n generalizing k with
  | zero => rfl
  | succ n ih =>
    cases n with
    | zero => rfl
    | succ n =>
      have hpowers : powersFrom x k (n + 1 + 1) = k :: k * x :: powersFrom x (k * x * x) n := rfl
      rw [hpowers, List.map_cons, List.map_cons, consecutive, hrelated, Bool.true_and]
      exact ih (k * x)

variable {G₁ G₂ Gₜ : Type} [AddCommGroup G₁] [Module (Fp p) G₁] [AddCommGroup G₂]
  [Module (Fp p) G₂] [CommGroup Gₜ] [Generated G₁] [Generated G₂] [Pairing G₁ G₂ Gₜ]
  [BilinearPairing G₁ G₂ Gₜ] [DecidableEq Gₜ]

theorem risesG1_powers (x k : Fp p) (n : ℕ) :
    risesG1 (x • (Generated.generator : G₂))
      ((powersFrom x k n).map (· • (Generated.generator : G₁))) = true := by
  refine consecutive_map_powersFrom (fun k ↦ ?_) k n
  rw [decide_eq_true_eq, Pairing.pair_generators, Pairing.power]

theorem risesG2_powers (x k : Fp p) (n : ℕ) :
    risesG2 (x • (Generated.generator : G₁))
      ((powersFrom x k n).map (· • (Generated.generator : G₂))) = true := by
  refine consecutive_map_powersFrom (fun k ↦ ?_) k n
  rw [decide_eq_true_eq, Pairing.pair_generator_smul, Pairing.pair_generators, mul_comm]

/-! ### The check on the string of some secrets -/

variable [DecidableEq G₁] [DecidableEq G₂]

/-- **The string of any secrets is accepted if it has two powers in each group**, and only then. -/
theorem isWellFormed_ofExponents_iff (n₁ n₂ : ℕ) (s : Phase1Secrets p) :
    (ofExponents n₁ n₂ s : ReferenceString G₁ G₂).isWellFormed = true ↔ 2 ≤ n₁ ∧ 2 ≤ n₂ := by
  constructor
  · intro h
    obtain ⟨⟨_, _, _, h₁⟩, ⟨_, _, _, h₂⟩, -⟩ := exists_cons_of_isWellFormed h
    have hlen₁ := congrArg List.length h₁
    have hlen₂ := congrArg List.length h₂
    rw [length_tauG1, List.length_cons, List.length_cons] at hlen₁
    rw [length_tauG2, List.length_cons, List.length_cons] at hlen₂
    omega
  · rintro ⟨h₁, h₂⟩
    obtain ⟨m, rfl⟩ := Nat.exists_eq_add_of_le' h₁
    obtain ⟨l, rfl⟩ := Nat.exists_eq_add_of_le' h₂
    have hrises (k : Fp p) : risesG1 (s.tau • (Generated.generator : G₂))
        ((powersFrom s.tau k (m + 2)).map (· • (Generated.generator : G₁))) = true :=
      risesG1_powers s.tau k (m + 2)
    have hrises₁ := hrises 1
    have hrises₂ : risesG2 (s.tau • (Generated.generator : G₁))
        ((powersFrom s.tau 1 (l + 2)).map (· • (Generated.generator : G₂))) = true :=
      risesG2_powers s.tau 1 (l + 2)
    have hbeta : (Pairing.pair (s.beta • (Generated.generator : G₁)) (Generated.generator : G₂) :
        Gₜ) = Pairing.pair (Generated.generator : G₁) (s.beta • (Generated.generator : G₂)) := by
      rw [Pairing.pair_generator_smul, Pairing.power]
    simp only [powersFrom, List.map_cons, one_mul, one_smul] at hrises hrises₁ hrises₂
    simp only [ofExponents, powersFrom, List.map_cons, one_mul, one_smul, isWellFormed, hrises,
      hrises₁, hrises₂, hbeta, List.length_cons, List.length_map, length_powersFrom, decide_true,
      Bool.and_self]

/-- **An honest run passes the check from two constraints on.** For every number of constraints, all
secrets and all contributions, zeros included, the first phase with the smallest sizes succeeds and
so do the contributions. What they publish is accepted exactly if there are at least two constraints
and `2 * n - 1` is not one when it is cut off to 64 binary digits, which it is for `2 ^ 63 + 1` at
the earliest. With a single constraint it is not accepted. -/
theorem isWellFormed_forConstraints_iff (n : ℕ) (secrets : Phase1Secrets p)
    (further : List (Phase1Secrets p)) :
    ∃ first last : ReferenceString G₁ G₂,
      ofSecrets (.forConstraints n) secrets = .ok first ∧
      further.foldlM contribute first = .ok last ∧
      (last.isWellFormed = true ↔ 2 ≤ n ∧ n % 2 ^ 63 ≠ 1) := by
  refine ⟨_, _, ofSecrets_eq_ok_iff.2 ⟨CeremonyConfig.powersG1_forConstraints_ne_zero n,
    CeremonyConfig.powersG2_forConstraints_ne_zero n, rfl⟩, foldlM_contribute .., ?_⟩
  rw [isWellFormed_ofExponents_iff, CeremonyConfig.two_le_forConstraints_iff]

/-- A run for two constraints is accepted, with two contributions of which one brings a zero. -/
theorem isWellFormed_twoConstraints :
    ∃ first last : ReferenceString (Fp 101) (Fp 101),
      ofSecrets (.forConstraints 2) (⟨5, 6, 3⟩ : Phase1Secrets 101) = .ok first ∧
      [(⟨2, 3, 4⟩ : Phase1Secrets 101), ⟨8, 0, 9⟩].foldlM contribute first = .ok last ∧
      last.isWellFormed = true := by
  obtain ⟨first, last, hfirst, hlast, hiff⟩ :
      ∃ first last : ReferenceString (Fp 101) (Fp 101), _ ∧ _ ∧ _ :=
    isWellFormed_forConstraints_iff 2 (⟨5, 6, 3⟩ : Phase1Secrets 101) [⟨2, 3, 4⟩, ⟨8, 0, 9⟩]
  exact ⟨first, last, hfirst, hlast, hiff.2 (by decide)⟩

/-- The first phase for one constraint, with no contributions, is not accepted. -/
theorem not_isWellFormed_oneConstraint :
    ∃ srs : ReferenceString (Fp 101) (Fp 101),
      ofSecrets (.forConstraints 1) (⟨5, 6, 3⟩ : Phase1Secrets 101) = .ok srs ∧
      ([] : List (Phase1Secrets 101)).foldlM contribute srs = .ok srs ∧
      srs.isWellFormed = false :=
  ⟨⟨[1], [1], [6], [3], 6, 3, 3⟩, by decide, rfl, by decide⟩

end ReferenceString

end SuccinctProof
