import SuccinctProof.Fp

/-!
# Fields for the coordinates of points

Coordinates lie in a prime field or in its quadratic extension `Fp2` by a square root of minus one.
What the curve operations need of either is collected in `CoordinateField`: arithmetic, square
roots, and a rule that tells an element from its negative.

Square roots are computed for moduli that leave remainder three when divided by four. There a root
of a square is a power of it, and minus one is no square. A candidate root is always checked, so
`sqrt?` never gives a wrong root.
-/

namespace SuccinctProof

/-- Arithmetic, square roots and a sign. -/
class CoordinateField (K : Type) extends Zero K, One K, Add K, Sub K, Neg K, Mul K, Inv K where
  /-- Equality can be decided. -/
  decEq : DecidableEq K
  /-- A square root, if there is one. -/
  sqrt? : K → Option K
  /-- Whether an element is larger than its negative, in an order of the representatives. -/
  isUpper : K → Bool

instance {K : Type} [CoordinateField K] : DecidableEq K := CoordinateField.decEq

/-! ### Prime fields -/

namespace Fp

variable {p : Nat} [Modulus p]

/-- A square root, if there is one, for `p` with remainder three modulo four. -/
def sqrt? (a : Fp p) : Option (Fp p) :=
  let root := a ^ ((p + 1) / 4)
  if root * root = a then some root else none

/-- Whether the representative is larger than the one of the negative. -/
def isUpper (a : Fp p) : Bool := (-a).val < a.val

instance : CoordinateField (Fp p) where
  decEq := inferInstance
  sqrt? := sqrt?
  isUpper := isUpper

end Fp

/-! ### The quadratic extension -/

/-- An element `re + im * u` of the extension by a root `u` of `u ^ 2 = -1`. -/
@[ext]
structure Fp2 (p : Nat) where
  /-- The part without `u`. -/
  re : Fp p
  /-- The factor of `u`. -/
  im : Fp p
deriving DecidableEq

namespace Fp2

variable {p : Nat} [Modulus p]

instance : Zero (Fp2 p) := ⟨⟨0, 0⟩⟩

instance : One (Fp2 p) := ⟨⟨1, 0⟩⟩

instance : Add (Fp2 p) := ⟨fun a b ↦ ⟨a.re + b.re, a.im + b.im⟩⟩

instance : Sub (Fp2 p) := ⟨fun a b ↦ ⟨a.re - b.re, a.im - b.im⟩⟩

instance : Neg (Fp2 p) := ⟨fun a ↦ ⟨-a.re, -a.im⟩⟩

/-- The product, each part of it reduced once. -/
def mul (a b : Fp2 p) : Fp2 p :=
  ⟨.ofNat (a.re.val * b.re.val + (p - a.im.val) * b.im.val),
    .ofNat (a.re.val * b.im.val + a.im.val * b.re.val)⟩

instance : Mul (Fp2 p) := ⟨mul⟩

/-- The sum of three products, each part of it reduced once. -/
def sumOfProducts (a₀ b₀ a₁ b₁ a₂ b₂ : Fp2 p) : Fp2 p :=
  ⟨.ofNat (a₀.re.val * b₀.re.val + (p - a₀.im.val) * b₀.im.val +
      (a₁.re.val * b₁.re.val + (p - a₁.im.val) * b₁.im.val) +
      (a₂.re.val * b₂.re.val + (p - a₂.im.val) * b₂.im.val)),
    .ofNat (a₀.re.val * b₀.im.val + a₀.im.val * b₀.re.val +
      (a₁.re.val * b₁.im.val + a₁.im.val * b₁.re.val) +
      (a₂.re.val * b₂.im.val + a₂.im.val * b₂.re.val))⟩

/-- An element times a number, each part of it reduced once. -/
def multiple (k : Nat) (a : Fp2 p) : Fp2 p := ⟨.ofNat (k * a.re.val), .ofNat (k * a.im.val)⟩

/-- The sum of `k` times `a` and `l` times `b`, each part of it reduced once. -/
def sumOfMultiples (k : Nat) (a : Fp2 p) (l : Nat) (b : Fp2 p) : Fp2 p :=
  ⟨.ofNat (k * a.re.val + l * b.re.val), .ofNat (k * a.im.val + l * b.im.val)⟩

/-- The conjugate, which is the power with exponent `p`. -/
def conj (a : Fp2 p) : Fp2 p := ⟨a.re, -a.im⟩

/-- The product of an element with its conjugate. -/
def norm (a : Fp2 p) : Fp p := a.re * a.re + a.im * a.im

/-- An element times a residue. -/
def scale (a : Fp2 p) (s : Fp p) : Fp2 p := ⟨a.re * s, a.im * s⟩

instance : Inv (Fp2 p) := ⟨fun a ↦ a.conj.scale a.norm⁻¹⟩

instance : Pow (Fp2 p) Nat := ⟨fun a n ↦ powBits a (n.log2 + 1) n⟩

/-- A square root, if there is one. The real part of a root has for its square one half of the real
part of the argument plus or minus a root of the norm. -/
def sqrt? (a : Fp2 p) : Option (Fp2 p) :=
  let half : Fp p := (1 + 1)⁻¹
  let root : Option (Fp2 p) :=
    if a.im = 0 then
      match a.re.sqrt? with
      | some x => some ⟨x, 0⟩
      | none => (-a.re).sqrt?.map fun y ↦ ⟨0, y⟩
    else do
      let s ← a.norm.sqrt?
      let x ← ((a.re + s) * half).sqrt? <|> ((a.re - s) * half).sqrt?
      return ⟨x, a.im * half * x⁻¹⟩
  root.filter fun y ↦ y * y = a

/-- Whether an element is larger than its negative, the factors of `u` being compared first. -/
def isUpper (a : Fp2 p) : Bool :=
  if a.im = -a.im then a.re.isUpper else a.im.isUpper

instance : CoordinateField (Fp2 p) where
  decEq := inferInstance
  sqrt? := sqrt?
  isUpper := isUpper

end Fp2

end SuccinctProof
