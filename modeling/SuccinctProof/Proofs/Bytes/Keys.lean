import SuccinctProof.Proofs.Bytes.Points
import SuccinctProof.Proofs.Bytes.Programs

/-!
# The byte formats of keys and proofs lose nothing

Proofs, reference strings and keys consist of elements of two groups, of lists of these, and in one
case of a quadratic arithmetic program. In either mode what was written for one of them is read
back, whatever follows it, and so their encodings are self-delimiting
(`ByteFormat.isSelfDelimiting_keys`). All that is asked of the groups is that their formats are
lawful, and of the values that their elements are members and that their lengths can be written. The
modulus of the program has at most 32 bytes, as before.

Elements are checked when they are read, one by one or as a list, and members pass both checks. So
an element and a list of elements round-trip (`roundTrips_element`, `roundTrips_elements`), and the
structures are put together from these, field by field.
-/

namespace SuccinctProof

variable {p : ℕ} {G₁ G₂ : Type} {member₁ : G₁ → Prop} {member₂ : G₂ → Prop}

/-! ### Values that fit -/

section Fits

variable (member₁ : G₁ → Prop) (member₂ : G₂ → Prop)

/-- The elements of a proof are members. -/
structure Proof.Fits (proof : Proof G₁ G₂) : Prop where
  a_fits : member₁ proof.a
  b_fits : member₂ proof.b
  c_fits : member₁ proof.c

/-- The elements of a reference string are members, and the lengths of its lists can be written.
The lists need not have one length. -/
structure ReferenceString.Fits (s : ReferenceString G₁ G₂) : Prop where
  tauG1_fits : Codec.ListFits member₁ s.tauG1
  tauG2_fits : Codec.ListFits member₂ s.tauG2
  alphaTauG1_fits : Codec.ListFits member₁ s.alphaTauG1
  betaTauG1_fits : Codec.ListFits member₁ s.betaTauG1
  alphaG1_fits : member₁ s.alphaG1
  betaG1_fits : member₁ s.betaG1
  betaG2_fits : member₂ s.betaG2

/-- The elements of a verifying key are members, and the number of its terms can be written. -/
structure VerifyingKey.Fits (vk : VerifyingKey G₁ G₂) : Prop where
  alphaG1_fits : member₁ vk.alphaG1
  betaG2_fits : member₂ vk.betaG2
  gammaG2_fits : member₂ vk.gammaG2
  deltaG2_fits : member₂ vk.deltaG2
  publicTerms_fits : Codec.ListFits member₁ vk.publicTerms

/-- The elements of a proving key are members, and all its lengths can be written. Nothing is asked
of how the lists and the program go together. -/
structure ProvingKey.Fits (pk : ProvingKey p G₁ G₂) : Prop where
  vk_fits : pk.vk.Fits member₁ member₂
  betaG1_fits : member₁ pk.betaG1
  deltaG1_fits : member₁ pk.deltaG1
  tauG1_fits : Codec.ListFits member₁ pk.tauG1
  tauG2_fits : Codec.ListFits member₂ pk.tauG2
  privateTerms_fits : Codec.ListFits member₁ pk.privateTerms
  quotientTerms_fits : Codec.ListFits member₁ pk.quotientTerms
  qap_fits : pk.qap.Fits

end Fits

/-! ### Elements -/

section Elements

variable {G : Type} [PointFormat G] {member : G → Prop} (h : PointFormat.IsLawful G member)
  (mode : Compression)
include h

theorem roundTrips_element : (elementCodec mode : Codec G).RoundTrips member :=
  (h.roundTrips mode).checked h.accepts_eq

/-- **A list of elements round-trips**: no element is written as nothing, and the list as a whole
passes the check. -/
theorem roundTrips_elements :
    (elementsCodec mode : Codec (List G)).RoundTrips (Codec.ListFits member) := by
  obtain ⟨width, hwidth, hlength⟩ := h.exists_length_eq mode
  refine ((h.roundTrips mode).list fun P hP ↦ ?_).checked fun Ps hPs ↦ ?_
  · rw [hlength P hP]
    exact hwidth
  · exact List.all_eq_true.2 fun P hP ↦ h.acceptsListed_eq P (hPs.2 P hP)

end Elements

/-! ### Keys and proofs -/

section Keys

variable [PointFormat G₁] [PointFormat G₂] (h₁ : PointFormat.IsLawful G₁ member₁)
  (h₂ : PointFormat.IsLawful G₂ member₂) (mode : Compression)
include h₁ h₂

theorem roundTrips_proof :
    (ByteFormat.codec mode : Codec (Proof G₁ G₂)).RoundTrips (Proof.Fits member₁ member₂) := by
  have hg1 := roundTrips_element h₁ mode
  have hfields := hg1.pair ((roundTrips_element h₂ mode).pair hg1)
  exact (hfields.map fun _ ↦ rfl).mono fun _ ⟨ha, hb, hc⟩ ↦ ⟨ha, hb, hc⟩

theorem roundTrips_referenceString : (ByteFormat.codec mode :
    Codec (ReferenceString G₁ G₂)).RoundTrips (ReferenceString.Fits member₁ member₂) := by
  have hg1 := roundTrips_element h₁ mode
  have hlistG1 := roundTrips_elements h₁ mode
  have hfields := hlistG1.pair ((roundTrips_elements h₂ mode).pair (hlistG1.pair (hlistG1.pair
    (hg1.pair (hg1.pair (roundTrips_element h₂ mode))))))
  refine (hfields.map fun _ ↦ rfl).mono fun s hs ↦ ?_
  exact ⟨hs.tauG1_fits, hs.tauG2_fits, hs.alphaTauG1_fits, hs.betaTauG1_fits, hs.alphaG1_fits,
    hs.betaG1_fits, hs.betaG2_fits⟩

theorem roundTrips_verifyingKey : (ByteFormat.codec mode :
    Codec (VerifyingKey G₁ G₂)).RoundTrips (VerifyingKey.Fits member₁ member₂) := by
  have hg2 := roundTrips_element h₂ mode
  have hfields := (roundTrips_element h₁ mode).pair (hg2.pair (hg2.pair (hg2.pair
    (roundTrips_elements h₁ mode))))
  refine (hfields.map fun _ ↦ rfl).mono fun vk hvk ↦ ?_
  exact ⟨hvk.alphaG1_fits, hvk.betaG2_fits, hvk.gammaG2_fits, hvk.deltaG2_fits,
    hvk.publicTerms_fits⟩

theorem roundTrips_provingKey (hp : p ≤ 256 ^ 32) : (ByteFormat.codec mode :
    Codec (ProvingKey p G₁ G₂)).RoundTrips (ProvingKey.Fits member₁ member₂) := by
  have hg1 := roundTrips_element h₁ mode
  have hlistG1 := roundTrips_elements h₁ mode
  have hfields := (roundTrips_verifyingKey h₁ h₂ mode).pair (hg1.pair (hg1.pair (hlistG1.pair
    ((roundTrips_elements h₂ mode).pair (hlistG1.pair (hlistG1.pair
      (isExact_qap hp mode).roundTrips))))))
  refine (hfields.map fun _ ↦ rfl).mono fun pk hpk ↦ ?_
  exact ⟨hpk.vk_fits, hpk.betaG1_fits, hpk.deltaG1_fits, hpk.tauG1_fits, hpk.tauG2_fits,
    hpk.privateTerms_fits, hpk.quotientTerms_fits, hpk.qap_fits⟩

end Keys

namespace ByteFormat

/-- **Keys, reference strings and proofs are self-delimiting in both modes.** What was written for
one of them is read back, and exactly what follows it is left. So no two are written in the same
way, and no encoding is the beginning of another one. -/
theorem isSelfDelimiting_keys [PointFormat G₁] [PointFormat G₂]
    (h₁ : PointFormat.IsLawful G₁ member₁) (h₂ : PointFormat.IsLawful G₂ member₂)
    (hp : p ≤ 256 ^ 32) (mode : Compression) :
    (codec mode : Codec (Proof G₁ G₂)).IsSelfDelimiting (Proof.Fits member₁ member₂) ∧
      (codec mode : Codec (ReferenceString G₁ G₂)).IsSelfDelimiting
        (ReferenceString.Fits member₁ member₂) ∧
      (codec mode : Codec (VerifyingKey G₁ G₂)).IsSelfDelimiting
        (VerifyingKey.Fits member₁ member₂) ∧
      (codec mode : Codec (ProvingKey p G₁ G₂)).IsSelfDelimiting
        (ProvingKey.Fits member₁ member₂) :=
  ⟨(roundTrips_proof h₁ h₂ mode).isSelfDelimiting,
    (roundTrips_referenceString h₁ h₂ mode).isSelfDelimiting,
    (roundTrips_verifyingKey h₁ h₂ mode).isSelfDelimiting,
    (roundTrips_provingKey h₁ h₂ mode hp).isSelfDelimiting⟩

/-- A key with neutral elements, lists of different lengths and a program that has no shape. -/
def unevenKey : ProvingKey Bls12381.r Bls12381.G1 Bls12381.G2 where
  vk := ⟨Generated.generator, 0, Generated.generator, -Generated.generator, [0, 0]⟩
  betaG1 := 0
  deltaG1 := -Generated.generator
  tauG1 := [Generated.generator]
  tauG2 := []
  privateTerms := [0, -Generated.generator, Generated.generator]
  quotientTerms := []
  qap := ⟨[⟨[1, 0]⟩, ⟨[]⟩], [], [⟨[]⟩], ⟨[0]⟩, 5⟩

/-- The key is read back in both modes, with two bytes left over. -/
theorem decode_unevenKey :
    PointFormat.IsLawful Bls12381.G1 PointFormat.IsMember ∧
    PointFormat.IsLawful Bls12381.G2 PointFormat.IsMember ∧ Bls12381.r ≤ 256 ^ 32 ∧
    unevenKey.Fits PointFormat.IsMember PointFormat.IsMember ∧
    ∀ mode, (codec mode).decode ((codec mode).encode unevenKey ++ [7, 8]) =
      .ok (unevenKey, [7, 8]) := by
  obtain ⟨hg1, hg2, -, -⟩ := PointFormat.isLawful_curves
  have hp : Bls12381.r ≤ 256 ^ 32 := by decide
  have hzero : PointFormat.IsMember (0 : Bls12381.G1) := by decide +kernel
  have hzero' : PointFormat.IsMember (0 : Bls12381.G2) := by decide +kernel
  have hgen : PointFormat.IsMember (Generated.generator : Bls12381.G1) := by decide +kernel
  have hneg : PointFormat.IsMember (-Generated.generator : Bls12381.G1) := by decide +kernel
  have hgen' : PointFormat.IsMember (Generated.generator : Bls12381.G2) := by decide +kernel
  have hneg' : PointFormat.IsMember (-Generated.generator : Bls12381.G2) := by decide +kernel
  have hfits : unevenKey.Fits PointFormat.IsMember PointFormat.IsMember := by
    refine ⟨⟨hgen, hzero', hgen', hneg', ?_⟩, hzero, hneg, ?_, ?_, ?_, ?_, ?_⟩
    · simp [unevenKey, Codec.ListFits, hzero]
    · simp [unevenKey, Codec.ListFits, hgen]
    · simp [unevenKey, Codec.ListFits]
    · simp [unevenKey, Codec.ListFits, hzero, hneg, hgen]
    · simp [unevenKey, Codec.ListFits]
    · constructor <;> simp [unevenKey, Codec.ListFits, Poly.Fits]
  refine ⟨hg1, hg2, hp, hfits, fun mode ↦ ?_⟩
  obtain ⟨-, -, -, hkey⟩ := isSelfDelimiting_keys hg1 hg2 hp mode
  exact hkey.roundTrips unevenKey [7, 8] hfits

end ByteFormat

end SuccinctProof
