import Mathlib.Algebra.Field.ZMod
import Mathlib.Algebra.Ring.InjSurj
import Mathlib.FieldTheory.Finite.Basic
import Mathlib.Tactic.NormNum.Prime
import SuccinctProof.Fp

/-!
# Residues form a ring, and a field for a prime modulus

The operations of `Fp` reduce the operations on natural numbers, and `Fp.toZMod` carries them to
the operations of `ZMod p`. The map is injective, so every ring law of `ZMod p` is one of `Fp p`:

* `Fp p` is a commutative ring for every modulus, with the operations it already has;
* for a prime modulus it is a domain, and `a⁻¹` is the inverse of every `a` other than zero.

The domain is not made a `Field`: a field's inverse of zero is zero, and here `0⁻¹` is the power
`0 ^ (p - 2)`, which is one for `p = 2`. Nothing below uses it.
-/

namespace SuccinctProof

/-- Residues can be taken by a prime. -/
instance Modulus.ofPrime {p : ℕ} [hp : Fact p.Prime] : Modulus p := ⟨hp.out.pos⟩

namespace Fp

variable {p : ℕ} [Modulus p]

/-! ### The map to `ZMod p` -/

/-- The class of a residue. -/
def toZMod (a : Fp p) : ZMod p := (a.val : ZMod p)

theorem toZMod_ofNat (n : ℕ) : (ofNat n : Fp p).toZMod = n :=
  ZMod.natCast_mod n p

omit [Modulus p] in
theorem toZMod_injective : Function.Injective (toZMod (p := p)) := by
  intro a b h
  have hmod : a.val ≡ b.val [MOD p] := (ZMod.natCast_eq_natCast_iff _ _ _).1 h
  ext
  exact hmod.eq_of_lt_of_lt a.val_lt b.val_lt

@[simp] theorem toZMod_zero : (0 : Fp p).toZMod = 0 := by
  simp [toZMod]

@[simp] theorem toZMod_one : (1 : Fp p).toZMod = 1 := by
  simp [toZMod, val_one]

@[simp] theorem toZMod_add (a b : Fp p) : (a + b).toZMod = a.toZMod + b.toZMod := by
  simp [toZMod, val_add]

@[simp] theorem toZMod_mul (a b : Fp p) : (a * b).toZMod = a.toZMod * b.toZMod := by
  simp [toZMod, val_mul]

omit [Modulus p] in
/-- The complement of a representative is a representative of the negative. -/
theorem natCast_complement (a : Fp p) : ((p - a.val : ℕ) : ZMod p) = -a.toZMod := by
  rw [Nat.cast_sub a.val_lt.le, ZMod.natCast_self, zero_sub, toZMod]

@[simp] theorem toZMod_neg (a : Fp p) : (-a).toZMod = -a.toZMod := by
  rw [toZMod, val_neg, ZMod.natCast_mod, natCast_complement]

@[simp] theorem toZMod_sub (a b : Fp p) : (a - b).toZMod = a.toZMod - b.toZMod := by
  rw [toZMod, val_sub, ZMod.natCast_mod, Nat.cast_add, natCast_complement, sub_eq_add_neg]
  rfl

@[simp] theorem toZMod_natCast (n : ℕ) : ((n : Fp p)).toZMod = n :=
  toZMod_ofNat n

@[simp] theorem toZMod_intCast (n : ℤ) : ((n : Fp p)).toZMod = n := by
  cases n with
  | ofNat n => exact (toZMod_ofNat n).trans (Int.cast_natCast n).symm
  | negSucc n =>
    show (-(ofNat (n + 1) : Fp p)).toZMod = _
    rw [toZMod_neg, toZMod_ofNat, Int.cast_negSucc]

/-! ### Powers -/

/-- Squaring reads the exponent digit by digit: each step takes the lowest of them. -/
theorem toZMod_powBits (bits : ℕ) : ∀ (a : Fp p) (n : ℕ),
    (powBits a bits n).toZMod = a.toZMod ^ (n % 2 ^ bits) := by
  induction bits with
  | zero =>
    intro a n
    rw [pow_zero, Nat.mod_one, pow_zero]
    exact toZMod_one
  | succ bits ih =>
    intro a n
    have hsplit : n % 2 ^ (bits + 1) = n % 2 + 2 * (n / 2 % 2 ^ bits) := by
      rw [pow_succ', Nat.mod_mul]
    have hrest : (powBits (a * a) bits (n / 2)).toZMod =
        a.toZMod ^ (2 * (n / 2 % 2 ^ bits)) := by
      rw [ih, toZMod_mul, ← sq, ← pow_mul]
    -- the lowest digit says whether the base is a factor, the others belong to its square
    rcases Nat.mod_two_eq_zero_or_one n with h | h
    · rw [hsplit, h, zero_add, ← hrest, powBits, if_pos h]
    · rw [hsplit, h, pow_add, pow_one, ← hrest, powBits, if_neg (by omega), toZMod_mul]

@[simp] theorem toZMod_pow (a : Fp p) (n : ℕ) : (a ^ n).toZMod = a.toZMod ^ n := by
  show (powBits a (n.log2 + 1) n).toZMod = _
  rw [toZMod_powBits, Nat.mod_eq_of_lt Nat.lt_log2_self]

/-! ### The ring -/

instance : SMul ℕ (Fp p) := ⟨fun n a ↦ ofNat n * a⟩

instance : SMul ℤ (Fp p) := ⟨fun n a ↦ ofInt n * a⟩

instance : CommRing (Fp p) :=
  toZMod_injective.commRing toZMod toZMod_zero toZMod_one toZMod_add toZMod_mul toZMod_neg
    toZMod_sub
    (fun n a ↦ by
      show (ofNat n * a : Fp p).toZMod = _
      rw [toZMod_mul, toZMod_ofNat, nsmul_eq_mul])
    (fun n a ↦ by
      show (ofInt n * a : Fp p).toZMod = _
      rw [toZMod_mul, zsmul_eq_mul]
      exact congrArg (· * a.toZMod) (toZMod_intCast n))
    toZMod_pow toZMod_natCast toZMod_intCast

@[simp] theorem ofNat_eq_natCast (n : ℕ) : (ofNat n : Fp p) = n := rfl

/-- A residue is the class of its representative. -/
@[simp] theorem natCast_val (a : Fp p) : ((a.val : ℕ) : Fp p) = a := ofNat_val a

@[simp] theorem toZMod_eq_zero_iff {a : Fp p} : a.toZMod = 0 ↔ a = 0 :=
  ⟨fun h ↦ toZMod_injective (h.trans toZMod_zero.symm), fun h ↦ h ▸ toZMod_zero⟩

/-- **Numbers below the modulus are different residues.** -/
theorem natCast_inj_of_lt {m n : ℕ} (hm : m < p) (hn : n < p) : (m : Fp p) = n ↔ m = n := by
  refine ⟨fun h ↦ ?_, fun h ↦ h ▸ rfl⟩
  have hval : m % p = n % p := congrArg val h
  rwa [Nat.mod_eq_of_lt hm, Nat.mod_eq_of_lt hn] at hval

/-- **A literal is embedded as its remainder**, negative ones too. -/
theorem val_ofInt (n : ℤ) : ((ofInt n : Fp p).val : ℤ) = n % p := by
  have hlt : (ofInt n : Fp p).val < p := (ofInt n).val_lt
  have hclass : (((ofInt n : Fp p).val : ℤ) : ZMod p) = (n : ZMod p) := by
    rw [Int.cast_natCast]
    exact toZMod_intCast n
  rw [← (ZMod.intCast_eq_intCast_iff' _ _ p).1 hclass, Int.emod_eq_of_lt (by omega) (by omega)]

theorem ofInt_add (m n : ℤ) : (ofInt (m + n) : Fp p) = ofInt m + ofInt n := Int.cast_add m n

theorem ofInt_mul (m n : ℤ) : (ofInt (m * n) : Fp p) = ofInt m * ofInt n := Int.cast_mul m n

/-- Squaring computes the product of equal factors. -/
theorem pow_eq_prod_replicate (a : Fp p) (n : ℕ) : a.pow n = (List.replicate n a).prod :=
  (List.prod_replicate n a).symm

omit [Modulus p] in
/-- There are as many residues as numbers below the modulus. -/
instance : Fintype (Fp p) :=
  Fintype.ofEquiv (Fin p)
    ⟨fun i ↦ ⟨i.val, i.isLt⟩, fun a ↦ ⟨a.val, a.val_lt⟩, fun _ ↦ rfl, fun _ ↦ rfl⟩

/-- The residues are as many as the modulus says. -/
instance : CharP (Fp p) p where
  cast_eq_zero_iff n := by
    rw [← toZMod_eq_zero_iff, toZMod_natCast, ZMod.natCast_eq_zero_iff]

/-! ### The checked inverse -/

theorem inverse_eq_ok_iff {a b : Fp p} : a.inverse = .ok b ↔ a ≠ 0 ∧ a⁻¹ = b := by
  rw [inverse]
  split <;> simp_all

/-- The checked inverse of a residue other than zero is its inverse. -/
theorem inverse_of_ne_zero {a : Fp p} (ha : a ≠ 0) : a.inverse = .ok a⁻¹ :=
  inverse_eq_ok_iff.2 ⟨ha, rfl⟩

theorem div_of_ne_zero (a : Fp p) {b : Fp p} (hb : b ≠ 0) : a.div b = .ok (a * b⁻¹) := by
  rw [div, inverse_of_ne_zero hb]
  rfl

end Fp

/-! ### Prime moduli -/

namespace Fp

variable {p : ℕ} [hp : Fact p.Prime]

instance : Nontrivial (Fp p) :=
  ⟨0, 1, fun h ↦ zero_ne_one (α := ZMod p) (by simpa using congrArg toZMod h)⟩

instance : NoZeroDivisors (Fp p) where
  eq_zero_or_eq_zero_of_mul_eq_zero {a b} h := by
    have hab : a.toZMod * b.toZMod = 0 := by rw [← toZMod_mul, h, toZMod_zero]
    exact (mul_eq_zero.1 hab).imp toZMod_eq_zero_iff.1 toZMod_eq_zero_iff.1

instance : IsDomain (Fp p) := NoZeroDivisors.to_isDomain _

/-- **Fermat's inverse is an inverse.** -/
theorem mul_inv_cancel {a : Fp p} (ha : a ≠ 0) : a * a⁻¹ = 1 := by
  have ha' : a.toZMod ≠ 0 := fun h ↦ ha (toZMod_eq_zero_iff.1 h)
  refine toZMod_injective ?_
  show (a * a ^ (p - 2)).toZMod = _
  rw [toZMod_mul, toZMod_pow, toZMod_one, ← pow_succ',
    show p - 2 + 1 = p - 1 by have := hp.out.two_le; omega]
  exact ZMod.pow_card_sub_one_eq_one ha'

theorem inv_mul_cancel {a : Fp p} (ha : a ≠ 0) : a⁻¹ * a = 1 := by
  rw [mul_comm, mul_inv_cancel ha]

theorem inv_ne_zero {a : Fp p} (ha : a ≠ 0) : a⁻¹ ≠ 0 :=
  left_ne_zero_of_mul_eq_one (inv_mul_cancel ha)

/-- A linear equation has one solution. -/
theorem eq_add_mul_iff {a b d x : Fp p} (hd : d ≠ 0) : a = b + x * d ↔ x = d⁻¹ * (a - b) := by
  have hcancel := inv_mul_cancel hd
  constructor
  · rintro rfl
    linear_combination -x * hcancel
  · rintro rfl
    linear_combination (b - a) * hcancel

end Fp

/-- A small prime, for systems that are written out. -/
instance fact_prime_101 : Fact (Nat.Prime 101) := ⟨by norm_num⟩

end SuccinctProof
