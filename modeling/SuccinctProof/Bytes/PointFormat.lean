import SuccinctProof.Bytes.Formats
import SuccinctProof.Curve.Bls12381
import SuccinctProof.Curve.Bn254
import SuccinctProof.Curve.Membership

/-!
# Byte formats of points

The coordinates have unused high bits, which carry flags. There are two formats:

* *leading* (`LeadingFormat`): numbers with their highest byte first, the factor of `u` before the
  plain part, and three flags in the highest bits of the first byte. The bytes of the whole point
  are taken before anything is looked at.
* *trailing* (`TrailingFormat`): numbers with their lowest byte first, the plain part before the
  factor of `u`, and two flags in the highest bits of the last byte. Each part is checked when it is
  read.

A point of the trailing format is accepted when it is on the curve and in the subgroup. So is a
point of the leading format in a list. Alone it only has to pass the test of the subgroup, in which
the equation of the curve does not occur; a point whose second coordinate was computed from the
first is on the curve anyway.
-/

namespace SuccinctProof

/-- A field whose elements consist of residues modulo `q`, the plain part first. -/
class HasParts (q : outParam Nat) (K : Type) where
  /-- The number of residues. -/
  numParts : Nat
  /-- The residues of an element. -/
  toParts : K → List (Fp q)
  /-- The element with the given residues, if there are as many as there should be. -/
  ofParts? : List (Fp q) → Option K

instance {q : Nat} : HasParts q (Fp q) where
  numParts := 1
  toParts x := [x]
  ofParts?
    | [x] => some x
    | _ => none

instance {q : Nat} : HasParts q (Fp2 q) where
  numParts := 2
  toParts x := [x.re, x.im]
  ofParts?
    | [re, im] => some ⟨re, im⟩
    | _ => none

variable {q : Nat} {K : Type} [CoordinateField K] [HasParts q K]

/-- The number of coordinates that are written. -/
def Compression.numCoordinates : Compression → Nat
  | compressed => 1
  | uncompressed => 2

/-- The coordinates of a point that are written, those of the point at infinity being zero. -/
def Point.coordinates {E : Curve K} (mode : Compression) : Point E → List K
  | .infinity => List.replicate mode.numCoordinates 0
  | .affine x y =>
    match mode with
    | .compressed => [x]
    | .uncompressed => [x, y]

/-- Whether the second coordinate of a point is larger than its negative. -/
def Point.isUpper {E : Curve K} : Point E → Bool
  | .infinity => false
  | .affine _ y => CoordinateField.isUpper y

/-- The finite point with the given coordinates. Refused when only the first is given and no point
has it. -/
def Point.ofCoordinates {E : Curve K} (upper : Bool) : List K → Except DecodeError (Point E)
  | [x] =>
    match Point.ofX? x upper with
    | some P => .ok P
    | none => .error .invalid
  | [x, y] => .ok (.affine x y)
  | _ => .error .invalid

/-! ### Flags in front -/

namespace LeadingFormat

/-- The number of bytes of a residue. -/
def width : Nat := 48

/-- The first flag: the point is compressed. -/
def compressedFlag : Nat := 4

/-- The second flag: the point is the one at infinity. -/
def infinityFlag : Nat := 2

/-- The third flag: the point is compressed and finite, and its second coordinate is the larger
one. -/
def upperFlag : Nat := 1

/-- The value of the lowest flag in the number that carries the flags. -/
def flagUnit : Nat := 1 <<< (8 * width - 3)

/-- The flags of a point. -/
def flags {E : Curve K} (mode : Compression) (P : Point E) : Nat :=
  (if mode = .compressed then compressedFlag else 0) +
    (if P = .infinity then infinityFlag else 0) +
    (if mode = .compressed ∧ P.isUpper then upperFlag else 0)

/-- The bytes of a point. -/
def encode {E : Curve K} (mode : Compression) (P : Point E) : List UInt8 :=
  let numbers := (P.coordinates mode).flatMap fun x ↦ ((HasParts.toParts x).map (·.val)).reverse
  let numbers := numbers.modify 0 (· + flags mode P * flagUnit)
  numbers.flatMap fun n ↦ (littleEndian width n).reverse

/-- The element whose parts are written as the given numbers, the plain part last. Refused when one
is not reduced. -/
def coordinate (numbers : List Nat) : Except DecodeError K := do
  let parts ← numbers.reverse.mapM fun n ↦
    if h : n < q then .ok (⟨n, h⟩ : Fp q) else .error .invalid
  match HasParts.ofParts? parts with
  | some x => return x
  | none => throw .invalid

/-- The point at the front of a byte list. -/
def decode {E : Curve K} (mode : Compression) (bytes : List UInt8) :
    Except DecodeError (Point E × List UInt8) := do
  let numParts := HasParts.numParts K
  let numNumbers := numParts * mode.numCoordinates
  let (raw, rest) ← Codec.takeBytes .invalid (width * numNumbers) bytes
  let numbers := (List.range numNumbers).map fun i ↦
    ofLittleEndian ((raw.drop (width * i)).take width).reverse
  let flags := numbers.headD 0 / flagUnit
  let numbers := numbers.modify 0 (· % flagUnit)
  let compressed : Bool := flags / compressedFlag = 1
  let infinity : Bool := flags / infinityFlag % 2 = 1
  let upper : Bool := flags % 2 = 1
  if upper && (!compressed || infinity) then throw .invalid
  if compressed != (mode = .compressed : Bool) then throw .unexpectedFlags
  if infinity then
    if numbers.all (· = 0) then return (.infinity, rest) else throw .invalid
  let coordinates ← (List.range mode.numCoordinates).mapM fun i ↦
    coordinate (K := K) ((numbers.drop (numParts * i)).take numParts)
  return (← Point.ofCoordinates upper coordinates, rest)

end LeadingFormat

/-! ### Flags at the end -/

namespace TrailingFormat

/-- The number of bytes of a residue. -/
def width : Nat := 32

/-- The value of the flag of the point at infinity, the lower of the two flags. The other one marks
the larger second coordinate. -/
def infinityFlag : Nat := 1 <<< (8 * width - 2)

/-- The flags of a point, as a number. -/
def flags {E : Curve K} (P : Point E) : Nat :=
  (if P = .infinity then infinityFlag else 0) + (if P.isUpper then 2 * infinityFlag else 0)

/-- The bytes of a point. -/
def encode {E : Curve K} (mode : Compression) (P : Point E) : List UInt8 :=
  let numbers := (P.coordinates mode).flatMap fun x ↦ (HasParts.toParts x).map (·.val)
  let numbers := numbers.modify (numbers.length - 1) (· + flags P)
  numbers.flatMap fun n ↦ littleEndian width n

/-- A residue with the two flags, the one of infinity first. -/
def decodeLast (bytes : List UInt8) : Except DecodeError ((Fp q × Bool × Bool) × List UInt8) := do
  let (n, rest) ← (Codec.number width).decode bytes
  let infinity : Bool := n / infinityFlag % 2 = 1
  let upper : Bool := n / (2 * infinityFlag) % 2 = 1
  if infinity ∧ upper then throw .unexpectedFlags
  if h : n % infinityFlag < q then return ((⟨n % infinityFlag, h⟩, infinity, upper), rest)
  else throw .invalid

/-- The point at the front of a byte list. -/
def decode {E : Curve K} (mode : Compression) (bytes : List UInt8) :
    Except DecodeError (Point E × List UInt8) := do
  let numParts := HasParts.numParts K
  let (parts, bytes) ←
    (Codec.residue q width).decodeMany (numParts * mode.numCoordinates - 1) bytes
  let ((last, infinity, upper), rest) ← decodeLast bytes
  if infinity then return (.infinity, rest)
  let parts := parts ++ [last]
  let coordinates := (List.range mode.numCoordinates).filterMap fun i ↦
    HasParts.ofParts? (K := K) ((parts.drop (numParts * i)).take numParts)
  return (← Point.ofCoordinates upper coordinates, rest)

end TrailingFormat

/-! ### The formats of the curves -/

instance : PointFormat Bls12381.G1 where
  codec mode := ⟨LeadingFormat.encode mode, LeadingFormat.decode mode⟩
  accepts := Point.isTorsion
  acceptsListed P := P.isOnCurve && P.isTorsion

instance : PointFormat Bls12381.G2 where
  codec mode := ⟨LeadingFormat.encode mode, LeadingFormat.decode mode⟩
  accepts := Bls12381.curve.isEigenpoint
  acceptsListed P := P.isOnCurve && Bls12381.curve.isEigenpoint P

instance : PointFormat Bn254.G1 where
  codec mode := ⟨TrailingFormat.encode mode, TrailingFormat.decode mode⟩
  accepts P := P.isOnCurve && P.isTorsion
  acceptsListed P := P.isOnCurve && P.isTorsion

instance : PointFormat Bn254.G2 where
  codec mode := ⟨TrailingFormat.encode mode, TrailingFormat.decode mode⟩
  accepts P := P.isOnCurve && Bn254.curve.isEigenpoint P
  acceptsListed P := P.isOnCurve && Bn254.curve.isEigenpoint P

end SuccinctProof
