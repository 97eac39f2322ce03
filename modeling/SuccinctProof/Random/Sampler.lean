import SuccinctProof.Fp
import SuccinctProof.Random.WordStream

/-!
# Sampling by rejection

A sampler reads words from a stream and makes a value of them. Uniform values are made by
rejection: words are drawn until they are acceptable. Nothing bounds the number of draws on an
arbitrary stream, so every such sampler is told how many attempts it may make, and gives nothing
when none of them is accepted. A value that comes out with some number of attempts comes out with
every larger number too, and is made of the same words.

* `Sampler.uniform` makes a residue from a 256-bit number below the modulus. The number is read as
  the product of the residue with `2 ^ 256`, which permutes the residues.
* `Sampler.between` makes an integer of a range from one word at a time, as the high half of the
  product of the word with the size of the range; a word is rejected when the low half shows that
  its interval is incomplete.
-/

namespace SuccinctProof

/-- A way to make a value of the next words of a stream, if it can be made. -/
abbrev Sampler (α : Type) : Type := StateT WordStream Option α

namespace Sampler

/-- The number of words, which is the base of numbers that are made of words. -/
def wordBase : Nat := 1 <<< 64

/-- The next word, as a number. -/
def word : Sampler Nat := fun s ↦
  let (w, s) := s.next
  some (w.toNat, s)

/-- Repeats an attempt until it is accepted, at most the given number of times. -/
def retry {α : Type} : (attempts : Nat) → Sampler (Option α) → Sampler α
  | 0, _ => failure
  | attempts + 1, attempt => do
    match ← attempt with
    | some x => pure x
    | none => retry attempts attempt

/-- The number with the given number of words as its digits, lowest first. -/
def number : (words : Nat) → Sampler Nat
  | 0 => pure 0
  | words + 1 => do
    let low ← word
    let high ← number words
    pure (low + wordBase * high)

/-- The number of binary digits of a number. -/
def bitLength (n : Nat) : Nat := if n = 0 then 0 else n.log2 + 1

/-- A residue modulo `p`, for `p` of at most 256 binary digits, every residue with the same weight:
a number with as many binary digits as `p` has, rejected unless it is below `p`. -/
def uniform {p : Nat} [Modulus p] (attempts : Nat) : Sampler (Fp p) :=
  retry attempts do
    let n ← number 4
    let n := n % (1 <<< bitLength p)
    return if n < p then some (Fp.ofNat n * (Fp.ofNat (1 <<< 256))⁻¹) else none

/-- A residue other than zero, every such residue with the same weight. -/
def uniformNonzero {p : Nat} [Modulus p] (attempts : Nat) : Sampler (Fp p) :=
  retry attempts do
    let x ← uniform attempts
    return if x = 0 then none else some x

/-- The end of the low halves that are accepted for a range of the given size: the size, doubled as
often as it stays within a word. -/
def acceptBelow (size : Nat) : Nat := size <<< (64 - bitLength size)

/-- An integer from `low` to `high`, every one with the same weight. The range of all words has a
size that is zero as a word, and there the next word itself is taken. -/
def between (attempts : Nat) (low high : UInt64) : Sampler Nat :=
  let size := (high - low + 1).toNat
  if size = 0 then word
  else
    retry attempts do
      let product := (← word) * size
      return if product % wordBase < acceptBelow size
        then some (low.toNat + product / wordBase) else none

end Sampler

end SuccinctProof
