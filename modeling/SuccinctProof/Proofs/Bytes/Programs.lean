import SuccinctProof.Bytes.Formats
import SuccinctProof.Curve.Bls12381
import SuccinctProof.Proofs.Bytes.Codec

/-!
# The byte formats of programs are exact

Polynomials, rank-one systems and quadratic arithmetic programs hold no group elements, so they are
written in the same way in both modes. Reading accepts exactly what writing produces, whatever
follows it (`ByteFormat.isExact_programs`): rows of different lengths, empty lists and zero
coefficients in front are all kept, and bytes that stand for no value, such as a residue that is not
reduced or a list that is cut off, are refused.

The modulus is asked to have at most 32 bytes, which is the room that a residue gets.
-/

namespace SuccinctProof

variable {p : ℕ}

/-! ### Values that fit -/

/-- The number of coefficients can be written. -/
def Poly.Fits (f : Poly p) : Prop := f.coeffs.length < 2 ^ 64

/-- All lengths and the number of wires can be written. The matrices need not have one shape, nor
their rows one width. -/
structure RankOneSystem.Fits (m : RankOneSystem p) : Prop where
  a_fits : Codec.ListFits (·.length < 2 ^ 64) m.a
  b_fits : Codec.ListFits (·.length < 2 ^ 64) m.b
  c_fits : Codec.ListFits (·.length < 2 ^ 64) m.c
  numWires_lt : m.numWires < 2 ^ 64

/-- All lengths and the number of public wires can be written. -/
structure Qap.Fits (q : Qap p) : Prop where
  a_fits : Codec.ListFits Poly.Fits q.a
  b_fits : Codec.ListFits Poly.Fits q.b
  c_fits : Codec.ListFits Poly.Fits q.c
  z_fits : q.z.Fits
  numPublic_lt : q.numPublic < 2 ^ 64

/-! ### The formats, field by field -/

section Exact

variable (hp : p ≤ 256 ^ 32) (mode : Compression)
include hp

theorem isExact_row : (listCodec mode : Codec (List (Fp p))).IsExact (·.length < 2 ^ 64) := by
  have hpos : ∀ x : Fp p, True → 0 < ((Codec.residue p 32).encode x).length := fun x _ ↦ by
    rw [Codec.residue, length_littleEndian]
    decide
  refine ((Codec.isExact_residue hp).list hpos).congr fun row ↦ ?_
  exact and_iff_left fun _ _ ↦ trivial

theorem isExact_poly : (ByteFormat.codec mode : Codec (Poly p)).IsExact Poly.Fits :=
  (isExact_row hp mode).map (fun _ ↦ rfl) fun _ ↦ rfl

theorem isExact_rankOneSystem :
    (ByteFormat.codec mode : Codec (RankOneSystem p)).IsExact RankOneSystem.Fits := by
  have hmatrix := (isExact_row hp mode).list fun row _ ↦ Codec.length_encode_list_pos row
  have hfields := hmatrix.pair (hmatrix.pair (hmatrix.pair (Codec.isExact_number 8)))
  refine (hfields.map (fun _ ↦ rfl) fun _ ↦ rfl).congr fun m ↦ ?_
  exact ⟨fun ⟨ha, hb, hc, hwires⟩ ↦ ⟨ha, hb, hc, hwires⟩,
    fun ⟨ha, hb, hc, hwires⟩ ↦ ⟨ha, hb, hc, hwires⟩⟩

theorem isExact_qap : (ByteFormat.codec mode : Codec (Qap p)).IsExact Qap.Fits := by
  have hpoly := isExact_poly hp mode
  have hcolumns := hpoly.list fun f _ ↦ Codec.length_encode_list_pos f.coeffs
  have hfields := hcolumns.pair (hcolumns.pair (hcolumns.pair
    (hpoly.pair (Codec.isExact_number 8))))
  refine (hfields.map (fun _ ↦ rfl) fun _ ↦ rfl).congr fun q ↦ ?_
  exact ⟨fun ⟨ha, hb, hc, hz, hpublic⟩ ↦ ⟨ha, hb, hc, hz, hpublic⟩,
    fun ⟨ha, hb, hc, hz, hpublic⟩ ↦ ⟨ha, hb, hc, hz, hpublic⟩⟩

end Exact

/-! ### One form for both modes -/

namespace ByteFormat

/-- A type whose values have one form in both modes, and that is read from nothing but that form. -/
structure IsModeless (α : Type) [ByteFormat α] (fits : α → Prop) : Prop where
  /-- The mode makes no difference to what is written. -/
  encode_eq : ∀ mode mode' (x : α), (codec mode).encode x = (codec mode').encode x
  /-- In each mode, reading accepts exactly what writing produces, and leaves what follows it. -/
  decode_eq_ok_iff : ∀ mode bytes (x : α) rest,
    (codec mode).decode bytes = .ok (x, rest) ↔ fits x ∧ (codec mode).encode x ++ rest = bytes

/-- **Scalars, polynomials, rank-one systems and quadratic arithmetic programs have one form.** What
was written for a value that fits is read back in either mode, and what follows is left. Everything
else is refused, such as a residue that is not reduced or a list that is cut off. -/
theorem isModeless_programs (hp : p ≤ 256 ^ 32) :
    IsModeless (Fp p) (fun _ ↦ True) ∧ IsModeless (Poly p) Poly.Fits ∧
      IsModeless (RankOneSystem p) RankOneSystem.Fits ∧ IsModeless (Qap p) Qap.Fits := by
  refine ⟨⟨fun _ _ _ ↦ rfl, fun _ _ _ _ ↦ ?_⟩, ⟨fun _ _ _ ↦ rfl, fun mode _ _ _ ↦ ?_⟩,
    ⟨fun _ _ _ ↦ rfl, fun mode _ _ _ ↦ ?_⟩, ⟨fun _ _ _ ↦ rfl, fun mode _ _ _ ↦ ?_⟩⟩
  · exact (Codec.isExact_residue hp).decode_eq_ok_iff
  · exact (isExact_poly hp mode).decode_eq_ok_iff
  · exact (isExact_rankOneSystem hp mode).decode_eq_ok_iff
  · exact (isExact_qap hp mode).decode_eq_ok_iff

/-- Matrices of three shapes, one of them with an empty row and one without rows. -/
def raggedSystem : RankOneSystem Bls12381.r := ⟨[[1, 0], []], [[0, 0, 1]], [], 5⟩

/-- What was written in one mode is read in the other, with two bytes left over. -/
theorem decode_raggedSystem : Bls12381.r ≤ 256 ^ 32 ∧ raggedSystem.Fits ∧
    (codec .compressed).decode ((codec .uncompressed).encode raggedSystem ++ [7, 8]) =
      .ok (raggedSystem, [7, 8]) := by
  have hp : Bls12381.r ≤ 256 ^ 32 := by decide
  have hfits : raggedSystem.Fits := by
    constructor <;> simp [Codec.ListFits, raggedSystem]
  obtain ⟨-, -, hsystem, -⟩ := isModeless_programs hp
  rw [hsystem.encode_eq .uncompressed .compressed]
  exact ⟨hp, hfits, (hsystem.decode_eq_ok_iff _ _ _ _).2 ⟨hfits, rfl⟩⟩

/-- The modulus itself is not reduced, so no coefficient is read from its digits. -/
example : ((codec .compressed).decode (littleEndian 8 1 ++ littleEndian 32 Bls12381.r) :
    Except DecodeError (Poly Bls12381.r × List UInt8)) = .error .invalid := by
  decide +kernel

end ByteFormat

end SuccinctProof
