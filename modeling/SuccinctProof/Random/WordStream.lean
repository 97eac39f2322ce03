/-!
# Streams of random words

All randomness comes from a stream of 64-bit words, read in order. A stream is an arbitrary
sequence with a position in it, so a statement about every source of randomness is a statement
about every `WordStream`.

`WordStream.seeded` is the stream that is used in practice: some given words, continued by the
SplitMix64 generator. That generator is a hash of a counter, so its words are given by position and
no state is threaded through.
-/

namespace SuccinctProof

/-- A sequence of words and the position of the next one. -/
structure WordStream where
  /-- The words. -/
  word : Nat → UInt64
  /-- How many have been read. -/
  position : Nat

namespace WordStream

/-- The next word, and the stream after it. -/
def next (s : WordStream) : UInt64 × WordStream :=
  (s.word s.position, { s with position := s.position + 1 })

/-- The finishing hash of SplitMix64. -/
def mix (z : UInt64) : UInt64 :=
  let z := (z ^^^ (z >>> 30)) * 0xBF58476D1CE4E5B9
  let z := (z ^^^ (z >>> 27)) * 0x94D049BB133111EB
  z ^^^ (z >>> 31)

/-- Word `n` of the SplitMix64 generator: the hash of the seed advanced `n + 1` times. -/
def splitMix (seed : UInt64) (n : Nat) : UInt64 :=
  mix (seed + UInt64.ofNat (n + 1) * 0x9E3779B97F4A7C15)

/-- The given words, and after them the words of the generator with the given seed. -/
def seeded (words : List UInt64) (seed : UInt64) : WordStream where
  word n := words.getD n (splitMix seed (n - words.length))
  position := 0

@[simp] theorem next_fst (s : WordStream) : s.next.1 = s.word s.position := rfl

@[simp] theorem next_snd_position (s : WordStream) : s.next.2.position = s.position + 1 := rfl

end WordStream

end SuccinctProof
