import Mathlib.Data.List.Prime
import Mathlib.NumberTheory.LucasPrimality
import SuccinctProof.Curve.Bls12381
import SuccinctProof.Curve.Bn254
import SuccinctProof.Proofs.Field

/-!
# Scalar fields

The theory of the proof system is for scalars modulo any prime. Here the orders of actual groups of
points are shown to be prime, by Lucas's test: a residue whose powers return to one after `p - 1`
steps, and after no proper divisor of as many, generates `p - 1` residues that can be inverted. The
powers are taken with the arithmetic of `Fp` itself.

`Fp.LawfulArithmetic` says what is expected of scalars: every residue but zero has an inverse, powers
are products, and integer literals are embedded as their remainders. A prime modulus is enough for
that (`Fp.lawfulArithmetic_of_prime`).
-/

namespace SuccinctProof

/-- **Lucas's test**, for a list of primes that has all prime factors of `p - 1`. -/
theorem Fp.prime_of_pow_eq_one {p : ℕ} [Modulus p] (a : ℕ) (primes : List ℕ) (k : ℕ)
    (hprime : ∀ q ∈ primes, q.Prime) (hfactors : p - 1 ∣ primes.prod ^ k)
    (hone : (a : Fp p) ^ (p - 1) = 1) (hne : ∀ q ∈ primes, (a : Fp p) ^ ((p - 1) / q) ≠ 1) :
    p.Prime := by
  refine lucas_primality p (a : Fp p).toZMod ?_ fun q hq hdvd ↦ ?_
  · rw [← toZMod_pow, hone, toZMod_one]
  · obtain ⟨q', hq', hdvd'⟩ := (Prime.dvd_prod_iff hq.prime).1
      (hq.dvd_of_dvd_pow (hdvd.trans hfactors))
    obtain rfl := (Nat.prime_dvd_prime_iff_eq hq (hprime q' hq')).1 hdvd'
    rw [← toZMod_pow, ← toZMod_one]
    exact toZMod_injective.ne (hne q hq')

/-- The order of the groups of BLS12-381 is prime. -/
instance Bls12381.fact_prime_r : Fact (Nat.Prime r) := by
  let primes : List ℕ :=
    [2, 3, 11, 19, 10177, 125527, 859267, 906349, 2508409, 2529403, 52437899, 254760293]
  have hprime : ∀ q ∈ primes, q.Prime := by norm_num [primes]
  exact ⟨Fp.prime_of_pow_eq_one 7 primes 32 hprime (by decide +kernel) (by decide +kernel)
    (by decide +kernel)⟩

namespace Bn254

/-! The predecessor of the order of the groups has three large prime factors. Each of these is shown
to be prime by a test of its own, and so is each large factor of its predecessor. -/

theorem prime_12048837557 : Nat.Prime 12048837557 :=
  @Fp.prime_of_pow_eq_one _ ⟨by decide⟩ 2 [2, 7, 661, 93001] 2 (by norm_num) (by decide +kernel)
    (by decide +kernel) (by decide +kernel)

theorem prime_5156902474397 : Nat.Prime 5156902474397 :=
  @Fp.prime_of_pow_eq_one _ ⟨by decide⟩ 2 [12048837557, 2, 107] 2
    (List.forall_mem_cons.2 ⟨prime_12048837557, by norm_num⟩) (by decide +kernel)
    (by decide +kernel) (by decide +kernel)

/-- The third largest prime factor. -/
theorem prime_405928799 : Nat.Prime 405928799 :=
  @Fp.prime_of_pow_eq_one _ ⟨by decide⟩ 22 [2, 11, 3691, 4999] 1 (by norm_num) (by decide +kernel)
    (by decide +kernel) (by decide +kernel)

/-- The second largest prime factor. -/
theorem prime_1670836401704629 : Nat.Prime 1670836401704629 :=
  @Fp.prime_of_pow_eq_one _ ⟨by decide⟩ 2 [5156902474397, 2, 3] 4
    (List.forall_mem_cons.2 ⟨prime_5156902474397, by norm_num⟩) (by decide +kernel)
    (by decide +kernel) (by decide +kernel)

theorem prime_639533339 : Nat.Prime 639533339 :=
  @Fp.prime_of_pow_eq_one _ ⟨by decide⟩ 2 [2, 229, 853, 1637] 1 (by norm_num) (by decide +kernel)
    (by decide +kernel) (by decide +kernel)

theorem prime_65865678001877903 : Nat.Prime 65865678001877903 :=
  @Fp.prime_of_pow_eq_one _ ⟨by decide⟩ 5 [639533339, 2, 83, 379, 1637] 1
    (List.forall_mem_cons.2 ⟨prime_639533339, by norm_num⟩) (by decide +kernel) (by decide +kernel)
    (by decide +kernel)

/-- The largest prime factor. -/
theorem prime_13818364434197438864469338081 : Nat.Prime 13818364434197438864469338081 :=
  @Fp.prime_of_pow_eq_one _ ⟨by decide⟩ 3 [65865678001877903, 2, 5, 823, 1593227] 5
    (List.forall_mem_cons.2 ⟨prime_65865678001877903, by norm_num⟩) (by decide +kernel)
    (by decide +kernel) (by decide +kernel)

/-- The order of the groups of BN254 is prime. -/
instance fact_prime_r : Fact (Nat.Prime r) := by
  let primes : List ℕ := [13818364434197438864469338081, 1670836401704629, 405928799, 2, 3, 13, 29,
    983, 11003, 237073]
  have hprime : ∀ q ∈ primes, q.Prime := by
    simp only [primes, List.forall_mem_cons]
    exact ⟨prime_13818364434197438864469338081, prime_1670836401704629, prime_405928799, by norm_num⟩
  exact ⟨Fp.prime_of_pow_eq_one 5 primes 28 hprime (by decide +kernel) (by decide +kernel)
    (by decide +kernel)⟩

end Bn254

/-! ### Lawful arithmetic -/

/-- What is expected of the arithmetic of scalars. -/
structure Fp.LawfulArithmetic (p : ℕ) [Modulus p] : Prop where
  /-- Zero has no inverse, and nothing else is refused. -/
  inverse_refused : ∀ (a : Fp p) (e : Error), a.inverse = .error e ↔ a = 0 ∧ e = .divisionByZero
  /-- Every other residue times its inverse is one. -/
  inverse_mul : ∀ a : Fp p, a ≠ 0 → ∃ b, a.inverse = .ok b ∧ b * a = 1
  /-- A quotient times the divisor is the dividend. -/
  div_mul : ∀ a b : Fp p, b ≠ 0 → ∃ c, a.div b = .ok c ∧ c * b = a
  /-- A power is a product of equal factors. -/
  pow_eq_prod : ∀ (a : Fp p) (n : ℕ), a.pow n = (List.replicate n a).prod
  /-- Exponents add up. -/
  pow_add : ∀ (a : Fp p) (m n : ℕ), a.pow (m + n) = a.pow m * a.pow n
  /-- A literal stands for its remainder. -/
  val_literal : ∀ n : ℤ, ((ofInt n : Fp p).val : ℤ) = n % p
  /-- The sum of two literals stands for the remainder of the sum of the integers. -/
  val_literal_add : ∀ m n : ℤ, ((ofInt m + ofInt n : Fp p).val : ℤ) = (m + n) % p
  /-- And so does the product. -/
  val_literal_mul : ∀ m n : ℤ, ((ofInt m * ofInt n : Fp p).val : ℤ) = m * n % p

/-- **Residues modulo a prime have lawful arithmetic.** Only the inverse needs the prime. -/
theorem Fp.lawfulArithmetic_of_prime {p : ℕ} [Fact p.Prime] : LawfulArithmetic p where
  inverse_refused a e := inverse_eq_error_iff
  inverse_mul a ha := ⟨a⁻¹, inverse_of_ne_zero ha, inv_mul_cancel ha⟩
  div_mul a b hb := by
    refine ⟨a * b⁻¹, div_of_ne_zero a hb, ?_⟩
    rw [mul_assoc, inv_mul_cancel hb, mul_one]
  pow_eq_prod := pow_eq_prod_replicate
  pow_add a m n := by
    rw [pow_eq_prod_replicate, List.replicate_add, List.prod_append, pow_eq_prod_replicate,
      pow_eq_prod_replicate]
  val_literal := val_ofInt
  val_literal_add m n := by rw [← ofInt_add, val_ofInt]
  val_literal_mul m n := by rw [← ofInt_mul, val_ofInt]

/-- **The scalars of both curves have lawful arithmetic.** Inverses are powers with an exponent of
some 250 binary digits, and they are inverses since the orders of the groups of points are prime. -/
theorem lawfulArithmetic_scalars :
    Fp.LawfulArithmetic Bls12381.r ∧ Fp.LawfulArithmetic Bn254.r :=
  ⟨Fp.lawfulArithmetic_of_prime, Fp.lawfulArithmetic_of_prime⟩

/-- The smallest literal of 64 binary digits. -/
example : (Fp.ofInt (-9223372036854775808) : Bn254.Scalar).val = Bn254.r - 9223372036854775808 := by
  decide

end SuccinctProof
