import SuccinctProof.Fp

/-!
# Byte formats

A byte format is a pair of functions (`Codec`): one writes a value, and one reads a value from the
front of a byte list and gives back the bytes it has not read. Formats of compound values are put
together from formats of their parts, written one after the other without separators:

* numbers of a fixed number of bytes, lowest byte first (`Codec.number`);
* lists, after their length as a number of eight bytes (`Codec.list`);
* pairs, and values that are equivalent to others (`Codec.pair`, `Codec.map`);
* values with a condition, which is checked once the whole value has been read (`Codec.checked`).

Reading stops at the first fault, and the faults are told apart (`DecodeError`).
-/

namespace SuccinctProof

/-- Why bytes could not be read. -/
inductive DecodeError where
  /-- The bytes end too early. -/
  | truncated
  /-- The bytes stand for no value of the type. -/
  | invalid
  /-- Flag bits do not go together, or do not fit the form that is read. -/
  | unexpectedFlags
  /-- A list is announced with more items than could ever be kept. -/
  | oversized
deriving DecidableEq

/-- A way to write values of a type as bytes, and to read them back. -/
structure Codec (α : Type) where
  /-- The bytes of a value. -/
  encode : α → List UInt8
  /-- The value at the front of a byte list, with the bytes that follow it. -/
  decode : List UInt8 → Except DecodeError (α × List UInt8)

/-! ### Digits -/

/-- The lowest `width` digits of a number to base 256, lowest first. -/
def littleEndian : (width n : Nat) → List UInt8
  | 0, _ => []
  | width + 1, n => UInt8.ofNat (n % 256) :: littleEndian width (n / 256)

/-- The number with the given digits to base 256, lowest first. -/
def ofLittleEndian : List UInt8 → Nat
  | [] => 0
  | b :: bs => b.toNat + 256 * ofLittleEndian bs

@[simp] theorem length_littleEndian (width n : Nat) : (littleEndian width n).length = width := by
  induction width generalizing n with
  | zero => rfl
  | succ width ih => simp [littleEndian, ih]

/-! ### Formats -/

namespace Codec

variable {α β : Type}

/-- The first `n` bytes and the others, refused with `e` when there are fewer. -/
def takeBytes (e : DecodeError) (n : Nat) (bytes : List UInt8) :
    Except DecodeError (List UInt8 × List UInt8) :=
  if bytes.length < n then .error e else .ok (bytes.splitAt n)

/-- Numbers below `256 ^ width`, with all their digits, lowest first. -/
def number (width : Nat) : Codec Nat where
  encode n := littleEndian width n
  decode bytes := do
    let (digits, rest) ← takeBytes .truncated width bytes
    return (ofLittleEndian digits, rest)

/-- Lengths and counts, which have eight bytes. -/
def count : Codec Nat := number 8

/-- One value after another. -/
def pair (first : Codec α) (second : Codec β) : Codec (α × β) where
  encode x := first.encode x.1 ++ second.encode x.2
  decode bytes := do
    let (x, bytes) ← first.decode bytes
    let (y, bytes) ← second.decode bytes
    return ((x, y), bytes)

/-- Values of another type that correspond to those of a format. -/
def map (forward : α → β) (backward : β → α) (c : Codec α) : Codec β where
  encode y := c.encode (backward y)
  decode bytes := do
    let (x, bytes) ← c.decode bytes
    return (forward x, bytes)

/-- The values that satisfy a condition. All values can be written, and others are refused when they
are read. -/
def checked (accept : α → Bool) (c : Codec α) : Codec α where
  encode := c.encode
  decode bytes := do
    let (x, bytes) ← c.decode bytes
    if accept x then return (x, bytes) else throw .invalid

/-- The next `n` values. -/
def decodeMany (c : Codec α) : (n : Nat) → List UInt8 → Except DecodeError (List α × List UInt8)
  | 0, bytes => .ok ([], bytes)
  | n + 1, bytes => do
    let (x, bytes) ← c.decode bytes
    let (xs, bytes) ← decodeMany c n bytes
    return (x :: xs, bytes)

/-- The number of items for which room can be set aside in advance. -/
def maxItems : Nat := 1 <<< 36

/-- Lists of values, after their length. A length for which there are clearly too few bytes, and
which is too large to set aside room for, is refused before any item is read. -/
def list (c : Codec α) : Codec (List α) where
  encode xs := count.encode xs.length ++ xs.flatMap c.encode
  decode bytes := do
    let (n, bytes) ← count.decode bytes
    if maxItems < n && bytes.length < n then throw .oversized
    c.decodeMany n bytes

/-- Residues, as numbers of `width` bytes that are reduced. -/
def residue (p width : Nat) : Codec (Fp p) where
  encode x := littleEndian width x.val
  decode bytes := do
    let (n, bytes) ← (number width).decode bytes
    if h : n < p then return (⟨n, h⟩, bytes) else throw .invalid

end Codec

end SuccinctProof
