import SuccinctProof.Bytes.Codec
import SuccinctProof.Proof.Basic

/-!
# Byte formats of programs, keys and proofs

Everything that is written as bytes is a `ByteFormat`: it has a format for each of two ways of
writing the group elements in it, compressed and uncompressed (`Compression`). The fields of a
structure are written in their order. Scalars are numbers of 32 bytes and a polynomial is the list
of its coefficients, so what holds no group elements is written the same in both ways.

A group whose elements can be written is a `PointFormat`. Reading the bytes of an element does not
decide whether it is accepted. An element on its own is checked as soon as it is read
(`PointFormat.accepts`), and the elements of a list once the whole list has been read
(`PointFormat.acceptsListed`). So in a list that is cut off, the missing bytes are what is
complained about, and not a bad element before them. The two checks may differ: elements of a list
are always members of the group, and a format may ask less of an element on its own.
-/

namespace SuccinctProof

/-- Whether the second coordinate of a point is written. -/
inductive Compression where
  /-- The second coordinate is only told from its negative. -/
  | compressed
  /-- Both coordinates are written. -/
  | uncompressed
deriving DecidableEq

/-- A type whose values can be written as bytes, and read back. -/
class ByteFormat (α : Type) where
  /-- The format, for either way of writing group elements. -/
  codec : Compression → Codec α

/-- A group whose elements can be written as bytes. -/
class PointFormat (G : Type) where
  /-- The format of a single element, before any check. -/
  codec : Compression → Codec G
  /-- Whether an element that was read on its own is accepted. -/
  accepts : G → Bool
  /-- Whether an element that was read in a list is accepted. -/
  acceptsListed : G → Bool

variable {p : Nat}

/-! ### Programs -/

instance : ByteFormat (Fp p) where
  codec _ := .residue p 32

/-- Lists are written after their length. This is for lists whose elements are checked one by one;
lists of group elements are not. -/
def listCodec {α : Type} [ByteFormat α] (mode : Compression) : Codec (List α) :=
  (ByteFormat.codec mode).list

instance : ByteFormat (Poly p) where
  codec mode := (listCodec mode).map Poly.mk Poly.coeffs

instance : ByteFormat (RankOneSystem p) where
  codec mode :=
    let matrix : Codec (List (List (Fp p))) := (listCodec mode).list
    (matrix.pair (matrix.pair (matrix.pair .count))).map
      (fun (a, b, c, numWires) ↦ ⟨a, b, c, numWires⟩) (fun m ↦ (m.a, m.b, m.c, m.numWires))

instance : ByteFormat (Qap p) where
  codec mode :=
    let columns : Codec (List (Poly p)) := listCodec mode
    (columns.pair (columns.pair (columns.pair ((ByteFormat.codec mode).pair .count)))).map
      (fun (a, b, c, z, numPublic) ↦ ⟨a, b, c, z, numPublic⟩)
      (fun q ↦ (q.a, q.b, q.c, q.z, q.numPublic))

/-! ### Keys and proofs -/

/-- The format of an element of a group. -/
def elementCodec {G : Type} [PointFormat G] (mode : Compression) : Codec G :=
  (PointFormat.codec mode).checked PointFormat.accepts

/-- The format of a list of elements of a group. -/
def elementsCodec {G : Type} [PointFormat G] (mode : Compression) : Codec (List G) :=
  (PointFormat.codec mode).list.checked (·.all PointFormat.acceptsListed)

variable {G₁ G₂ : Type} [PointFormat G₁] [PointFormat G₂]

instance : ByteFormat (ReferenceString G₁ G₂) where
  codec mode :=
    let g1 : Codec G₁ := elementCodec mode
    let g2 : Codec G₂ := elementCodec mode
    let listG1 : Codec (List G₁) := elementsCodec mode
    let listG2 : Codec (List G₂) := elementsCodec mode
    (listG1.pair (listG2.pair (listG1.pair (listG1.pair (g1.pair (g1.pair g2)))))).map
      (fun (tauG1, tauG2, alphaTauG1, betaTauG1, alphaG1, betaG1, betaG2) ↦
        ⟨tauG1, tauG2, alphaTauG1, betaTauG1, alphaG1, betaG1, betaG2⟩)
      (fun s ↦ (s.tauG1, s.tauG2, s.alphaTauG1, s.betaTauG1, s.alphaG1, s.betaG1, s.betaG2))

instance : ByteFormat (VerifyingKey G₁ G₂) where
  codec mode :=
    let g1 : Codec G₁ := elementCodec mode
    let g2 : Codec G₂ := elementCodec mode
    let listG1 : Codec (List G₁) := elementsCodec mode
    (g1.pair (g2.pair (g2.pair (g2.pair listG1)))).map
      (fun (alphaG1, betaG2, gammaG2, deltaG2, publicTerms) ↦
        ⟨alphaG1, betaG2, gammaG2, deltaG2, publicTerms⟩)
      (fun vk ↦ (vk.alphaG1, vk.betaG2, vk.gammaG2, vk.deltaG2, vk.publicTerms))

instance : ByteFormat (ProvingKey p G₁ G₂) where
  codec mode :=
    let vk : Codec (VerifyingKey G₁ G₂) := ByteFormat.codec mode
    let qap : Codec (Qap p) := ByteFormat.codec mode
    let g1 : Codec G₁ := elementCodec mode
    let listG1 : Codec (List G₁) := elementsCodec mode
    let listG2 : Codec (List G₂) := elementsCodec mode
    (vk.pair (g1.pair (g1.pair (listG1.pair (listG2.pair (listG1.pair (listG1.pair qap))))))).map
      (fun (vk, betaG1, deltaG1, tauG1, tauG2, privateTerms, quotientTerms, qap) ↦
        ⟨vk, betaG1, deltaG1, tauG1, tauG2, privateTerms, quotientTerms, qap⟩)
      (fun pk ↦ (pk.vk, pk.betaG1, pk.deltaG1, pk.tauG1, pk.tauG2, pk.privateTerms,
        pk.quotientTerms, pk.qap))

instance : ByteFormat (Proof G₁ G₂) where
  codec mode :=
    let g1 : Codec G₁ := elementCodec mode
    let g2 : Codec G₂ := elementCodec mode
    (g1.pair (g2.pair g1)).map (fun (a, b, c) ↦ ⟨a, b, c⟩)
      (fun proof ↦ (proof.a, proof.b, proof.c))

end SuccinctProof
