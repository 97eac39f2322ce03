import SuccinctProof.Fp

/-!
# Polynomials as coefficient lists

A polynomial is the list of its coefficients, lowest first, and the list is never trimmed. Its
length is part of the value: two polynomials with the same nonzero coefficients and different
numbers of leading zeros are different, and every operation fixes the length of its result:

* a sum or a difference is as long as the longer operand;
* a product of nonempty operands of lengths `m` and `n` has length `m + n - 1`;
* a linear combination is as long as the longest polynomial of the whole list. It is collected in a
  buffer of that length (`Poly.updateWith`), and not from sums.

The lengths matter downstream, where a coefficient list is paired entry by entry with a list of
group elements.
-/

namespace SuccinctProof

/-- A polynomial over `Fp p`: entry `i` is the coefficient of the `i`-th power. -/
@[ext]
structure Poly (p : Nat) where
  /-- The coefficients, lowest first, with all their zeros. -/
  coeffs : List (Fp p)
deriving DecidableEq

namespace Poly

variable {p : Nat}

/-! ### Size -/

/-- The number of coefficients. -/
def length (f : Poly p) : Nat := f.coeffs.length

/-- The degree that the length allows: one less than the number of coefficients, and zero for none.
It counts leading zeros too. -/
def degree (f : Poly p) : Nat := f.length - 1

/-- Whether there is no coefficient at all. -/
def isEmpty (f : Poly p) : Bool := f.coeffs.isEmpty

/-! ### Buffers -/

/-- Changes the entries at the beginning of a buffer by the entries of a list, as far as both go. The
buffer keeps its length: what stands beyond the list is left alone, and what the list has beyond the
buffer is dropped. -/
def updateWith (op : Fp p → Fp p → Fp p) : (buffer cs : List (Fp p)) → List (Fp p)
  | b :: buffer, c :: cs => op b c :: updateWith op buffer cs
  | buffer, _ => buffer

@[simp] theorem length_updateWith (op : Fp p → Fp p → Fp p) (buffer cs : List (Fp p)) :
    (updateWith op buffer cs).length = buffer.length := by
  fun_induction updateWith op buffer cs <;> simp_all

variable [Modulus p]

/-- Whether every coefficient is zero. -/
def isZero (f : Poly p) : Bool := f.coeffs.all (· = 0)

/-! ### Simple polynomials -/

instance : Zero (Poly p) := ⟨⟨[]⟩⟩

instance : Inhabited (Poly p) := ⟨0⟩

/-- The constant `c`, with one coefficient even when `c` is zero. -/
def constant (c : Fp p) : Poly p := ⟨[c]⟩

instance : One (Poly p) := ⟨constant 1⟩

/-- The linear factor `x - a`, whose only root is `a`. -/
def linear (a : Fp p) : Poly p := ⟨[-a, 1]⟩

/-- The list of `n` zero coefficients. -/
def zeros (n : Nat) : Poly p := ⟨List.replicate n 0⟩

/-! ### Evaluation -/

/-- The value at `x`, from the highest coefficient down. -/
def eval (f : Poly p) (x : Fp p) : Fp p :=
  f.coeffs.foldr (fun c value ↦ c + x * value) 0

/-! ### Arithmetic -/

/-- Every coefficient times `s`. -/
def scale (f : Poly p) (s : Fp p) : Poly p := ⟨f.coeffs.map (· * s)⟩

/-- Two coefficient lists combined entry by entry, the shorter one continued by zeros. -/
def alignWith (op : Fp p → Fp p → Fp p) : List (Fp p) → List (Fp p) → List (Fp p)
  | [], bs => bs.map (op 0)
  | as, [] => as.map (op · 0)
  | a :: as, b :: bs => op a b :: alignWith op as bs

instance : Add (Poly p) := ⟨fun f g ↦ ⟨alignWith (· + ·) f.coeffs g.coeffs⟩⟩

instance : Sub (Poly p) := ⟨fun f g ↦ ⟨alignWith (· - ·) f.coeffs g.coeffs⟩⟩

/-- The product of a list of coefficients with a nonempty list: the lowest coefficient scales the
second list, and the others contribute one power higher. -/
def mulCoeffs : List (Fp p) → List (Fp p) → List (Fp p)
  | [], _ => []
  | a :: as, bs => alignWith (· + ·) (bs.map (a * ·)) (0 :: mulCoeffs as bs)

instance : Mul (Poly p) :=
  ⟨fun f g ↦ if g.isEmpty then 0 else ⟨mulCoeffs f.coeffs g.coeffs⟩⟩

/-- The sum of a list of polynomials, added from the left. -/
def sum (fs : List (Poly p)) : Poly p := fs.foldl (· + ·) 0

/-! ### Linear combinations -/

/-- The length of the longest polynomial of a list. -/
def maxLength (fs : List (Poly p)) : Nat :=
  fs.foldr (fun f n ↦ max f.length n) 0

/-- Adds a multiple of a polynomial to a buffer of coefficients. A zero weight adds nothing and is
passed over, since the lists of weights that occur here are sparse. -/
def addMultiple (buffer : List (Fp p)) (w : Fp p) (f : Poly p) : List (Fp p) :=
  if w = 0 then buffer else updateWith (fun acc c ↦ acc + w * c) buffer f.coeffs

/-- The weighted sum of polynomials, collected in a buffer that is as long as the longest polynomial
of the list. Weights and polynomials are paired until one list ends. -/
def combine (weights : List (Fp p)) (fs : List (Poly p)) : Poly p :=
  ⟨(weights.zip fs).foldl (fun buffer wf ↦ addMultiple buffer wf.1 wf.2)
    (List.replicate (maxLength fs) 0)⟩

/-! ### Lengths -/

@[simp] theorem length_scale (f : Poly p) (s : Fp p) : (f.scale s).length = f.length := by
  simp [scale, length]

@[simp] theorem length_addMultiple (buffer : List (Fp p)) (w : Fp p) (f : Poly p) :
    (addMultiple buffer w f).length = buffer.length := by
  rw [addMultiple]
  split
  · rfl
  · exact length_updateWith _ _ _

theorem length_alignWith (op : Fp p → Fp p → Fp p) (as bs : List (Fp p)) :
    (alignWith op as bs).length = max as.length bs.length := by
  fun_induction alignWith op as bs <;> simp_all

@[simp] theorem length_add (f g : Poly p) : (f + g).length = max f.length g.length :=
  length_alignWith _ _ _

@[simp] theorem length_sub (f g : Poly p) : (f - g).length = max f.length g.length :=
  length_alignWith _ _ _

end Poly

end SuccinctProof
