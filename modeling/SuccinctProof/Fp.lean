import SuccinctProof.Error

/-!
# Prime fields

`Fp p` holds the residues modulo `p`, each as the number below `p` that represents it. Both the
scalars of the proof system and the coordinates of its curve points live in such a type, for
different `p`.

Two shape decisions:

* reduction happens once, in `Fp.ofNat`, and every operation is the operation on natural numbers
  followed by it, so that an identity between operations is a congruence of numbers modulo `p`;
* an inverse is the power `a ^ (p - 2)`. The total function `a⁻¹` has a value for zero too, and
  `Fp.inverse` is the checked form, which refuses zero and nothing else.

Nothing here asks `p` to be prime. That only enters where an inverse has to be an inverse.
-/

namespace SuccinctProof

/-- A residue modulo `p`, given by its representative below `p`. -/
@[ext]
structure Fp (p : Nat) where
  /-- The representative. -/
  val : Nat
  /-- The representative is reduced. -/
  val_lt : val < p
deriving DecidableEq

/-- A number that residues can be taken by, which is any number but zero. -/
class Modulus (p : Nat) : Prop where
  /-- The number is positive. -/
  pos : 0 < p

/-- The power of `base` whose exponent has the lowest `bits` binary digits of `n`. Each step takes
the lowest digit and squares the base. -/
@[specialize]
def powBits {M : Type} [One M] [Mul M] (base : M) : (bits n : Nat) → M
  | 0, _ => 1
  | bits + 1, n =>
    let rest := powBits (base * base) bits (n / 2)
    if n % 2 = 0 then rest else base * rest

namespace Fp

variable {p : Nat} [Modulus p]

/-! ### Reduction and the ring operations -/

/-- The residue of a natural number. -/
def ofNat (n : Nat) : Fp p :=
  ⟨n % p, Nat.mod_lt n Modulus.pos⟩

instance : NatCast (Fp p) := ⟨ofNat⟩

instance : Zero (Fp p) := ⟨ofNat 0⟩

instance : One (Fp p) := ⟨ofNat 1⟩

instance : Inhabited (Fp p) := ⟨0⟩

instance : Add (Fp p) := ⟨fun a b ↦ ofNat (a.val + b.val)⟩

instance : Mul (Fp p) := ⟨fun a b ↦ ofNat (a.val * b.val)⟩

instance : Neg (Fp p) := ⟨fun a ↦ ofNat (p - a.val)⟩

instance : Sub (Fp p) := ⟨fun a b ↦ ofNat (a.val + (p - b.val))⟩

/-- The residue of an integer: a negative one is the additive inverse of its magnitude. -/
def ofInt : Int → Fp p
  | .ofNat n => ofNat n
  | .negSucc n => -ofNat (n + 1)

instance : IntCast (Fp p) := ⟨ofInt⟩

@[simp] theorem val_ofNat (n : Nat) : (ofNat n : Fp p).val = n % p := rfl

/-- A reduced number is its own residue. -/
@[simp] theorem ofNat_val (a : Fp p) : ofNat a.val = a := by
  ext
  exact Nat.mod_eq_of_lt a.val_lt

@[simp] theorem val_zero : (0 : Fp p).val = 0 := Nat.zero_mod p

theorem val_one : (1 : Fp p).val = 1 % p := rfl

theorem val_add (a b : Fp p) : (a + b).val = (a.val + b.val) % p := rfl

theorem val_mul (a b : Fp p) : (a * b).val = a.val * b.val % p := rfl

theorem val_neg (a : Fp p) : (-a).val = (p - a.val) % p := rfl

theorem val_sub (a b : Fp p) : (a - b).val = (a.val + (p - b.val)) % p := rfl

/-! ### Powers -/

/-- The power `a ^ n`, by squaring. The number of steps is the number of binary digits of `n`. -/
def pow (a : Fp p) (n : Nat) : Fp p :=
  powBits a (n.log2 + 1) n

instance : Pow (Fp p) Nat := ⟨pow⟩

/-! ### Inverses -/

instance : Inv (Fp p) := ⟨fun a ↦ a ^ (p - 2)⟩

/-- The inverse of `a`, refused for zero. -/
def inverse (a : Fp p) : Except Error (Fp p) :=
  if a = 0 then .error .divisionByZero else .ok a⁻¹

/-- The quotient of `a` by `b`, refused when `b` is zero. -/
def div (a b : Fp p) : Except Error (Fp p) := do
  return a * (← b.inverse)

/-- **Zero is the only residue without an inverse.** -/
theorem inverse_eq_error_iff {a : Fp p} {e : Error} :
    a.inverse = .error e ↔ a = 0 ∧ e = .divisionByZero := by
  unfold inverse
  split <;> simp_all [eq_comm]

end Fp

end SuccinctProof
