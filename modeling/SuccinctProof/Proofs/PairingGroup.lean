import Mathlib.Algebra.Module.Basic
import Mathlib.Algebra.Group.TypeTags.Basic
import SuccinctProof.PairingGroup
import SuccinctProof.Proofs.Dot
import SuccinctProof.Proofs.Poly.Formal

/-!
# Computing in the exponent

The proof system is written for any two groups with a pairing. What it relies on is that the source
groups are modules over the scalars, that multiples with a split scalar are multiples
(`LawfulSplitMul`), that the pairing is bilinear (`BilinearPairing`), and that a product of several
pairings is their product (`LawfulPairProduct`). The scalars themselves, with their product as
pairing, are groups of this kind. Where a statement is about all elements of a group, and not only
about computed ones, it asks that all are multiples of the generator (`LawfulGenerated`).

Every element that a ceremony, a prover or a verifier computes is a multiple of a generator, so it
is enough to follow the scalars: a combination of multiples has the dot product as its scalar
(`combineMultiples_map`), a polynomial evaluated on powers has its value (`evalInGroup_map`), and a
pairing has the product (`Pairing.pair_generators`). An equation between pairings is an equation
between scalars, in both directions when the pairing of the generators is not trivial
(`Pairing.power_inj`).
-/

namespace SuccinctProof

/-- Multiples with a split scalar are multiples. -/
class LawfulSplitMul (S G : Type) [SMul S G] [SplitMul S G] : Prop where
  /-- The split changes the computation, and not its result. -/
  splitMul_eq : ∀ (k : S) (g : G), SplitMul.splitMul k g = k • g

/-- Every element is a multiple of the generator. -/
class LawfulGenerated (S G : Type) [SMul S G] [Generated G] : Prop where
  /-- Some scalar gives the element. -/
  exists_smul_eq : ∀ g : G, ∃ k : S, k • (Generated.generator : G) = g

/-- A pairing that turns sums into products, on both sides. -/
class BilinearPairing (G₁ G₂ Gₜ : Type) [AddCommGroup G₁] [AddCommGroup G₂] [CommGroup Gₜ]
    [Pairing G₁ G₂ Gₜ] : Prop where
  /-- Sums on the left become products. -/
  pair_add_left : ∀ (a a' : G₁) (b : G₂),
    (Pairing.pair (a + a') b : Gₜ) = Pairing.pair a b * Pairing.pair a' b
  /-- Sums on the right become products. -/
  pair_add_right : ∀ (a : G₁) (b b' : G₂),
    (Pairing.pair a (b + b') : Gₜ) = Pairing.pair a b * Pairing.pair a b'

/-- A product of pairings that has the value of the pairings taken one by one. -/
class LawfulPairProduct (G₁ G₂ Gₜ : Type) [CommGroup Gₜ] [Pairing G₁ G₂ Gₜ] : Prop where
  /-- Taking the pairings together changes the computation, and not its result. -/
  pairProduct_eq : ∀ pairs : List (G₁ × G₂),
    (Pairing.pairProduct pairs : Gₜ) = (pairs.map fun ab ↦ Pairing.pair ab.1 ab.2).prod

/-! ### Multiples of one element -/

section Multiples

variable {p : ℕ} [Modulus p] {G : Type} [AddCommGroup G] [Module (Fp p) G]

/-- **A combination of multiples is the multiple by the dot product.** -/
theorem combineMultiples_map (cs ks : List (Fp p)) (g : G) :
    combineMultiples cs (ks.map (· • g)) = dot cs ks • g := by
  rw [combineMultiples, dot, List.sum_smul, List.zipWith_map_right, List.map_zipWith]
  simp only [smul_smul]

theorem map_smul_map_smul (k : Fp p) (ks : List (Fp p)) (g : G) :
    (ks.map (· • g)).map (k • ·) = (ks.map (k * ·)).map (· • g) := by
  simp only [List.map_map, Function.comp_def, smul_smul]

end Multiples

/-! ### Powers -/

section Powers

variable {p : ℕ} [Modulus p]

@[simp] theorem length_powersFrom (x s : Fp p) (n : ℕ) : (powersFrom x s n).length = n := by
  induction n generalizing s with
  | zero => rfl
  | succ n ih => rw [powersFrom, List.length_cons, ih]

theorem powersFrom_eq_map_range (x s : Fp p) (n : ℕ) :
    powersFrom x s n = (List.range n).map fun j ↦ s * x ^ j := by
  induction n generalizing s with
  | zero => rfl
  | succ n ih =>
    rw [powersFrom, ih, List.range_succ_eq_map, List.map_cons, pow_zero, mul_one, List.map_map]
    congr 2
    funext j
    rw [Function.comp_apply, pow_succ', mul_assoc]

theorem map_mul_powersFrom (k x s : Fp p) (n : ℕ) :
    (powersFrom x s n).map (k * ·) = powersFrom x (k * s) n := by
  simp only [powersFrom_eq_map_range, List.map_map, Function.comp_def, mul_assoc]

/-- **The dot product of coefficients with powers is the value of the polynomial.** -/
theorem dot_powersFrom {cs : List (Fp p)} {n : ℕ} (h : cs.length ≤ n) (x s : Fp p) :
    dot cs (powersFrom x s n) = s * (⟨cs⟩ : Poly p).eval x := by
  induction cs generalizing n s with
  | nil => rw [dot_nil_left, Poly.eval, List.foldr_nil, mul_zero]
  | cons c cs ih =>
    obtain ⟨n, rfl⟩ : ∃ k, n = k + 1 := Nat.exists_eq_succ_of_ne_zero (by rintro rfl; simp at h)
    rw [powersFrom, dot_cons, ih (Nat.le_of_succ_le_succ h), Poly.eval, Poly.eval, List.foldr_cons]
    ring

theorem drop_powersFrom (x s : Fp p) (n j : ℕ) :
    (powersFrom x s n).drop j = powersFrom x (s * x ^ j) (n - j) := by
  induction j generalizing n s with
  | zero => rw [List.drop_zero, pow_zero, mul_one, Nat.sub_zero]
  | succ j ih =>
    cases n with
    | zero => rw [Nat.zero_sub]; rfl
    | succ n => rw [powersFrom, List.drop_succ_cons, ih, Nat.succ_sub_succ, pow_succ', mul_assoc]

theorem take_powersFrom {n m : ℕ} (h : m ≤ n) (x s : Fp p) :
    (powersFrom x s n).take m = powersFrom x s m := by
  induction m generalizing n s with
  | zero => rw [List.take_zero, powersFrom]
  | succ m ih =>
    obtain ⟨n, rfl⟩ : ∃ k, n = k + 1 := ⟨n - 1, by omega⟩
    rw [powersFrom, List.take_succ_cons, ih (Nat.le_of_succ_le_succ h), powersFrom]

variable {G : Type} [AddCommGroup G] [Module (Fp p) G]

/-- **A polynomial is evaluated in the exponent**, when there are enough powers. -/
theorem evalInGroup_map {f : Poly p} {n : ℕ} (h : f.length ≤ n) (x s : Fp p) (g : G) :
    f.evalInGroup ((powersFrom x s n).map (· • g)) = .ok ((s * f.eval x) • g) := by
  rw [Poly.evalInGroup, List.length_map, length_powersFrom, if_neg (Nat.not_lt.2 h),
    combineMultiples_map, dot_powersFrom h]

/-- Nothing is evaluated with too few powers. -/
theorem length_le_of_evalInGroup {f : Poly p} {powers : List G} {v : G}
    (h : f.evalInGroup powers = .ok v) : f.length ≤ powers.length := by
  by_contra hlt
  rw [Poly.evalInGroup, if_pos (Nat.not_le.1 hlt)] at h
  exact nomatch h

theorem evalInGroup_map_eq_ok_iff {f : Poly p} {n : ℕ} {x s : Fp p} {g v : G} :
    f.evalInGroup ((powersFrom x s n).map (· • g)) = .ok v ↔
      f.length ≤ n ∧ (s * f.eval x) • g = v := by
  constructor
  · intro h
    have hle := length_le_of_evalInGroup h
    rw [List.length_map, length_powersFrom] at hle
    rw [evalInGroup_map hle] at h
    exact ⟨hle, Except.ok.inj h⟩
  · rintro ⟨hle, rfl⟩
    exact evalInGroup_map hle x s g

end Powers

/-! ### Pairings of multiples -/

namespace Pairing

section Bilinear

variable {G₁ G₂ Gₜ : Type} [AddCommGroup G₁] [AddCommGroup G₂] [CommGroup Gₜ]
  [Pairing G₁ G₂ Gₜ] [BilinearPairing G₁ G₂ Gₜ]

theorem pair_zero_left (b : G₂) : (pair (0 : G₁) b : Gₜ) = 1 := by
  have h : (pair (0 + 0 : G₁) b : Gₜ) = _ := BilinearPairing.pair_add_left 0 0 b
  rwa [add_zero, left_eq_mul] at h

theorem pair_zero_right (a : G₁) : (pair a (0 : G₂) : Gₜ) = 1 := by
  have h : (pair a (0 + 0 : G₂) : Gₜ) = _ := BilinearPairing.pair_add_right a 0 0
  rwa [add_zero, left_eq_mul] at h

theorem pair_nsmul_left (n : ℕ) (a : G₁) (b : G₂) :
    (pair (n • a) b : Gₜ) = pair a b ^ n := by
  induction n with
  | zero => rw [zero_smul, pair_zero_left, pow_zero]
  | succ n ih => rw [succ_nsmul, BilinearPairing.pair_add_left, ih, pow_succ]

theorem pair_nsmul_right (n : ℕ) (a : G₁) (b : G₂) :
    (pair a (n • b) : Gₜ) = pair a b ^ n := by
  induction n with
  | zero => rw [zero_smul, pair_zero_right, pow_zero]
  | succ n ih => rw [succ_nsmul, BilinearPairing.pair_add_right, ih, pow_succ]

/-- A negative on the right is an inverse of the pairing. -/
theorem pair_neg_right (a : G₁) (b : G₂) : (pair a (-b) : Gₜ) = (pair a b)⁻¹ := by
  rw [eq_inv_iff_mul_eq_one, ← BilinearPairing.pair_add_right, neg_add_cancel, pair_zero_right]

/-- Elements with a pairing that is not trivial are not zero. -/
theorem left_ne_zero_of_pair_ne_one {a : G₁} {b : G₂} (h : (pair a b : Gₜ) ≠ 1) : a ≠ 0 := by
  rintro rfl
  exact h (pair_zero_left b)

theorem right_ne_zero_of_pair_ne_one {a : G₁} {b : G₂} (h : (pair a b : Gₜ) ≠ 1) : b ≠ 0 := by
  rintro rfl
  exact h (pair_zero_right a)

end Bilinear

variable {p : ℕ} [Modulus p]

/-- The multiple by a residue is the multiple by its representative. -/
theorem smul_eq_nsmul {G : Type} [AddCommGroup G] [Module (Fp p) G] (k : Fp p) (g : G) :
    k • g = k.val • g := by
  rw [← Nat.cast_smul_eq_nsmul (Fp p), Fp.natCast_val]

/-- **A scalar can be moved from one side of a pairing to the other.** -/
theorem pair_smul_comm {G₁ G₂ Gₜ : Type} [AddCommGroup G₁] [Module (Fp p) G₁] [AddCommGroup G₂]
    [Module (Fp p) G₂] [CommGroup Gₜ] [Pairing G₁ G₂ Gₜ] [BilinearPairing G₁ G₂ Gₜ] (k : Fp p)
    (a : G₁) (b : G₂) : (pair a (k • b) : Gₜ) = pair (k • a) b := by
  rw [smul_eq_nsmul k b, pair_nsmul_right, ← pair_nsmul_left, ← smul_eq_nsmul]

variable {G₁ G₂ Gₜ : Type} [AddCommGroup G₁] [Module (Fp p) G₁] [AddCommGroup G₂] [CommGroup Gₜ]
  [Pairing G₁ G₂ Gₜ] [Generated G₁] [Generated G₂]

/-- The pairing of the generators, to the power of a scalar. -/
def power (G₁ G₂ : Type) {Gₜ : Type} [AddCommGroup G₁] [Module (Fp p) G₁] [Pairing G₁ G₂ Gₜ]
    [Generated G₁] [Generated G₂] (k : Fp p) : Gₜ :=
  pair (k • (Generated.generator : G₁)) (Generated.generator : G₂)

variable [BilinearPairing G₁ G₂ Gₜ]

/-- Powers of sums are products of powers. -/
theorem power_add (a b : Fp p) :
    (power G₁ G₂ (a + b) : Gₜ) = power G₁ G₂ a * power G₁ G₂ b := by
  rw [power, add_smul, BilinearPairing.pair_add_left, power, power]

/-- **Pairing multiples multiplies their scalars.** -/
theorem pair_generators [Module (Fp p) G₂] (a b : Fp p) :
    (pair (a • (Generated.generator : G₁)) (b • (Generated.generator : G₂)) : Gₜ) =
      power G₁ G₂ (a * b) := by
  rw [power, pair_smul_comm, smul_smul, mul_comm]

/-- A scalar on the right counts like one on the left. -/
theorem pair_generator_smul [Module (Fp p) G₂] (k : Fp p) :
    (pair (Generated.generator : G₁) (k • (Generated.generator : G₂)) : Gₜ) = power G₁ G₂ k := by
  have h : (_ : Gₜ) = power G₁ G₂ (1 * k) := pair_generators 1 k
  rwa [one_smul, one_mul] at h

end Pairing

/-! ### Prime order -/

/-- **Multiples of an element other than zero have equal scalars when they are equal.** -/
theorem smul_left_inj_of_ne_zero {p : ℕ} [Fact p.Prime] {G : Type} [AddCommGroup G]
    [Module (Fp p) G] {g : G} (hg : g ≠ 0) {a b : Fp p} : a • g = b • g ↔ a = b := by
  refine ⟨fun h ↦ ?_, fun h ↦ h ▸ rfl⟩
  have hdiff : (a - b) • g = 0 := by rw [sub_smul, h, sub_self]
  by_contra hab
  refine hg ?_
  rw [← one_smul (Fp p) g, ← Fp.inv_mul_cancel (sub_ne_zero.2 hab), mul_smul, hdiff, smul_zero]

/-- Only the scalar zero takes an element other than zero to zero. -/
theorem smul_eq_zero_iff_of_ne_zero {p : ℕ} [Fact p.Prime] {G : Type} [AddCommGroup G]
    [Module (Fp p) G] {g : G} (hg : g ≠ 0) {k : Fp p} : k • g = 0 ↔ k = 0 := by
  rw [← smul_left_inj_of_ne_zero hg, zero_smul]

/-- Only the scalar one keeps an element other than zero. -/
theorem smul_eq_self_iff_of_ne_zero {p : ℕ} [Fact p.Prime] {G : Type} [AddCommGroup G]
    [Module (Fp p) G] {g : G} (hg : g ≠ 0) {k : Fp p} : k • g = g ↔ k = 1 := by
  rw [← smul_left_inj_of_ne_zero hg, one_smul]

namespace Pairing

variable {p : ℕ} [Fact p.Prime] {G₁ G₂ Gₜ : Type} [AddCommGroup G₁] [Module (Fp p) G₁]
  [AddCommGroup G₂] [Module (Fp p) G₂] [CommGroup Gₜ] [Pairing G₁ G₂ Gₜ] [Generated G₁]
  [Generated G₂] [BilinearPairing G₁ G₂ Gₜ]

/-- Only the power by zero is trivial, unless the pairing of the generators is: any other power has
a power that is the pairing of the generators. -/
theorem eq_zero_of_power_eq_one
    (hne : (pair (Generated.generator : G₁) (Generated.generator : G₂) : Gₜ) ≠ 1) {k : Fp p}
    (h : (power G₁ G₂ k : Gₜ) = 1) : k = 0 := by
  by_contra hk
  refine hne ?_
  have hone : (power G₁ G₂ (k * k⁻¹) : Gₜ) = 1 := by
    rw [← pair_generators, smul_eq_nsmul k⁻¹, pair_nsmul_right]
    exact (congrArg (· ^ _) h).trans (one_pow _)
  rwa [Fp.mul_inv_cancel hk, power, one_smul] at hone

/-- **Equal powers have equal scalars.** -/
theorem power_inj (hne : (pair (Generated.generator : G₁) (Generated.generator : G₂) : Gₜ) ≠ 1)
    {a b : Fp p} : (power G₁ G₂ a : Gₜ) = power G₁ G₂ b ↔ a = b := by
  refine ⟨fun h ↦ ?_, fun h ↦ h ▸ rfl⟩
  have hdiff : (power G₁ G₂ a : Gₜ) = power G₁ G₂ (a - b) * power G₁ G₂ b := by
    rw [← power_add, sub_add_cancel]
  rw [h, right_eq_mul] at hdiff
  exact sub_eq_zero.1 (eq_zero_of_power_eq_one hne hdiff)

end Pairing

/-! ### The scalars as groups -/

section Scalars

variable {p : ℕ} [Modulus p]

instance : Generated (Fp p) := ⟨1⟩

instance : LawfulGenerated (Fp p) (Fp p) := ⟨fun g ↦ ⟨g, mul_one g⟩⟩

instance : SplitMul (Fp p) (Fp p) := ⟨(· * ·)⟩

instance : LawfulSplitMul (Fp p) (Fp p) := ⟨fun _ _ ↦ rfl⟩

instance : Pairing (Fp p) (Fp p) (Multiplicative (Fp p)) where
  pair a b := .ofAdd (a * b)
  pairProduct pairs := .ofAdd (pairs.map fun ab ↦ ab.1 * ab.2).sum

instance : BilinearPairing (Fp p) (Fp p) (Multiplicative (Fp p)) where
  pair_add_left a a' b := congrArg Multiplicative.ofAdd (add_mul a a' b)
  pair_add_right a b b' := congrArg Multiplicative.ofAdd (mul_add a b b')

instance : LawfulPairProduct (Fp p) (Fp p) (Multiplicative (Fp p)) where
  pairProduct_eq pairs := by
    show Multiplicative.ofAdd (pairs.map fun ab ↦ ab.1 * ab.2).sum = _
    rw [ofAdd_list_prod, List.map_map]
    rfl

end Scalars

end SuccinctProof
