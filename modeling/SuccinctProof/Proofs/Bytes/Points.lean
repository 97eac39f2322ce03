import SuccinctProof.Bytes.PointFormat
import SuccinctProof.Proofs.Bytes.Codec

/-!
# The byte formats of points lose nothing

Compound values are written with the elements of two groups in them, and what that relies on is
collected in `PointFormat.IsLawful`: in each mode members of the group are read back, with what
follows left alone, all take up as many bytes, and they pass the checks. Nothing is said of elements
that are no members.

The formats of the curves are lawful (`PointFormat.isLawful_curves`). In the compressed mode the
second coordinate of a point is computed from the first, and so the members are here the points of
the group whose second coordinate is found in this way (`Point.IsRecoverable`, which can be
decided). All else about these formats is arithmetic: numbers are cut out of the bytes in pieces of
one length (`map_range_pieces`), and flags stand above the digits of one of them
(`add_mul_div_mod`).
-/

namespace SuccinctProof

/-! ### Pieces and digits -/

section Pieces

variable {α β : Type} {f : α → List β} {width : ℕ} {l : List α}

/-- **Pieces of one length are found again** in the list that they make up. -/
theorem map_range_pieces (hf : ∀ a ∈ l, (f a).length = width) :
    (List.range l.length).map (fun i ↦ ((l.flatMap f).drop (width * i)).take width) = l.map f := by
  induction l with
  | nil => rfl
  | cons a l ih =>
    obtain ⟨ha, hl⟩ := List.forall_mem_cons.1 hf
    rw [List.length_cons, List.range_succ_eq_map, List.map_cons, List.map_cons, List.map_map,
      ← ih hl, List.flatMap_cons]
    congr 1
    · rw [Nat.mul_zero, List.drop_zero, ← ha, List.take_left]
    · refine List.map_congr_left fun i _ ↦ ?_
      rw [Function.comp_apply, Nat.mul_succ, Nat.add_comm, ← ha, List.drop_length_add_append]

theorem length_flatMap_pieces (hf : ∀ a ∈ l, (f a).length = width) :
    (l.flatMap f).length = width * l.length := by
  induction l with
  | nil => rfl
  | cons a l ih =>
    obtain ⟨ha, hl⟩ := List.forall_mem_cons.1 hf
    rw [List.flatMap_cons, List.length_append, ha, ih hl, List.length_cons, Nat.mul_succ,
      Nat.add_comm]

theorem modify_append_singleton {g : α → α} (l : List α) (a : α) :
    (l ++ [a]).modify l.length g = l ++ [g a] := by
  induction l with
  | nil => rfl
  | cons b l ih =>
    rw [List.cons_append, List.length_cons, List.modify_succ_cons, ih, List.cons_append]

end Pieces

section Flags

variable {n k unit bound : ℕ}

/-- A number below the unit and the multiple of the unit that was added to it can be told apart. -/
theorem add_mul_div_mod (hn : n < unit) :
    (n + k * unit) / unit = k ∧ (n + k * unit) % unit = n := by
  rw [Nat.add_mul_div_right _ _ (Nat.zero_lt_of_lt hn), Nat.div_eq_of_lt hn, Nat.zero_add,
    Nat.add_mul_mod_self_right, Nat.mod_eq_of_lt hn]
  exact ⟨rfl, rfl⟩

theorem add_mul_lt (hn : n < unit) (hk : k < bound) : n + k * unit < bound * unit := by
  calc n + k * unit < unit + k * unit := Nat.add_lt_add_right hn _
    _ = (k + 1) * unit := by rw [Nat.succ_mul, Nat.add_comm]
    _ ≤ bound * unit := Nat.mul_le_mul_right _ hk

end Flags

/-! ### Parts of a coordinate -/

/-- The residues of an element are as many as announced, and give the element back. -/
class LawfulParts {q : ℕ} (K : Type) [CoordinateField K] [HasParts q K] : Prop where
  /-- There are residues. -/
  numParts_pos : 0 < HasParts.numParts K
  /-- Every element has as many as announced. -/
  length_toParts : ∀ x : K, (HasParts.toParts x).length = HasParts.numParts K
  /-- The residues of an element give it back. -/
  ofParts?_toParts : ∀ x : K, HasParts.ofParts? (HasParts.toParts x) = some x
  /-- The residues of zero are zero. -/
  val_toParts_zero : ∀ part ∈ HasParts.toParts (0 : K), part.val = 0

section

variable {q : ℕ} [Modulus q]

instance : LawfulParts (Fp q) where
  numParts_pos := Nat.one_pos
  length_toParts _ := rfl
  ofParts?_toParts _ := rfl
  val_toParts_zero part h := by
    rw [List.mem_singleton.1 h]
    exact Fp.val_zero

instance : LawfulParts (Fp2 q) where
  numParts_pos := Nat.two_pos
  length_toParts _ := rfl
  ofParts?_toParts _ := rfl
  val_toParts_zero part h := by
    rcases List.mem_pair.1 h with rfl | rfl <;> exact Fp.val_zero

end

variable {q : ℕ} {K : Type} [CoordinateField K] [HasParts q K]

/-- Every point is written with a number. -/
theorem LawfulParts.numParts_mul_pos [LawfulParts K] (mode : Compression) :
    0 < HasParts.numParts K * mode.numCoordinates :=
  Nat.mul_pos (numParts_pos (K := K)) (by cases mode <;> decide)

/-! ### Coordinates of a point -/

namespace Point

variable {E : Curve K}

/-- The second coordinate of a finite point is the one that is computed from the first. -/
def IsRecoverable : Point E → Prop
  | infinity => True
  | affine x y => ofX? x (CoordinateField.isUpper y) = some (affine x y : Point E)

instance : (P : Point E) → Decidable P.IsRecoverable
  | infinity => inferInstanceAs (Decidable True)
  | affine x y =>
    inferInstanceAs (Decidable (ofX? x (CoordinateField.isUpper y) = some (affine x y : Point E)))

omit [HasParts q K] in
theorem length_coordinates (mode : Compression) (P : Point E) :
    (P.coordinates mode).length = mode.numCoordinates := by
  cases P with
  | infinity => exact List.length_replicate
  | affine x y => cases mode <;> rfl

omit [HasParts q K] in
/-- **A finite point is found again from the coordinates that are written.** -/
theorem ofCoordinates_coordinates {mode : Compression} {x y : K} {upper : Bool}
    (hP : (affine x y : Point E).IsRecoverable)
    (hupper : mode = .compressed → upper = CoordinateField.isUpper y) :
    ofCoordinates upper ((affine x y : Point E).coordinates mode) = .ok (affine x y : Point E) := by
  cases mode with
  | compressed =>
    rw [coordinates, ofCoordinates, hupper rfl, show ofX? x (CoordinateField.isUpper y) = _ from hP]
  | uncompressed => rfl

end Point

/-! ### Flags in front -/

namespace LeadingFormat

variable {E : Curve K} (mode : Compression) (P : Point E)

theorem pow_width : 256 ^ width = 8 * flagUnit := by decide +kernel

/-- The numbers of a coordinate, the plain part last. -/
def numbersOf (x : K) : List ℕ := ((HasParts.toParts x).map (·.val)).reverse

/-- The numbers of a point. -/
def numbers : List ℕ := (P.coordinates mode).flatMap numbersOf

/-- The numbers that are written: those of the point, with the flags on the first one. -/
def flagged : List ℕ := (numbers mode P).modify 0 (· + flags mode P * flagUnit)

/-- The digits of a number, highest first. -/
def digits (n : ℕ) : List UInt8 := (littleEndian width n).reverse

theorem encode_eq : encode mode P = (flagged mode P).flatMap digits := rfl

theorem length_digits (n : ℕ) : (digits n).length = width := by
  rw [digits, List.length_reverse, length_littleEndian]

theorem lt_of_mem_numbers {n : ℕ} (hn : n ∈ numbers mode P) : n < q := by
  obtain ⟨x, -, hx⟩ := List.mem_flatMap.1 hn
  obtain ⟨part, -, rfl⟩ := List.mem_map.1 (List.mem_reverse.1 hx)
  exact part.val_lt

omit [HasParts q K] in
theorem flags_lt : flags mode P < 8 := by
  rw [flags, compressedFlag, infinityFlag, upperFlag]
  split <;> split <;> split <;> simp_all

omit [HasParts q K] in
/-- Each flag is a binary digit of the number of all. -/
theorem flags_spec : decide (flags mode P / compressedFlag = 1) = decide (mode = .compressed) ∧
    decide (flags mode P / infinityFlag % 2 = 1) = decide (P = .infinity) ∧
    decide (flags mode P % 2 = 1) = (decide (mode = .compressed) && P.isUpper) := by
  rw [flags, compressedFlag, infinityFlag, upperFlag]
  split <;> split <;> split <;> simp_all

variable [LawfulParts K]

theorem length_numbersOf (x : K) : (numbersOf x).length = HasParts.numParts K := by
  rw [numbersOf, List.length_reverse, List.length_map, LawfulParts.length_toParts]

theorem length_flagged : (flagged mode P).length = HasParts.numParts K * mode.numCoordinates := by
  rw [flagged, List.length_modify, numbers, length_flatMap_pieces fun x _ ↦ length_numbersOf x,
    Point.length_coordinates]

/-- Every point is written with as many bytes. -/
theorem length_encode :
    (encode mode P).length = width * (HasParts.numParts K * mode.numCoordinates) := by
  rw [encode_eq, length_flatMap_pieces fun n _ ↦ length_digits n, length_flagged]

/-- The flags stand above the digits of the first number. -/
theorem exists_flagged_eq_cons : ∃ n ns, numbers mode P = n :: ns ∧
    flagged mode P = (n + flags mode P * flagUnit) :: ns := by
  have hpos : 0 < (flagged mode P).length := by
    rw [length_flagged]
    exact LawfulParts.numParts_mul_pos mode
  rw [flagged, List.length_modify] at hpos
  obtain ⟨n, ns, hns⟩ := List.exists_cons_of_length_pos hpos
  exact ⟨n, ns, hns, by rw [flagged, hns, List.modify_zero_cons]⟩

theorem flagged_lt (hq : q ≤ flagUnit) {n : ℕ} (hn : n ∈ flagged mode P) : n < 256 ^ width := by
  obtain ⟨m, ms, hms, hflagged⟩ := exists_flagged_eq_cons mode P
  have hlt : ∀ n ∈ m :: ms, n < flagUnit := fun n hn ↦
    Nat.lt_of_lt_of_le (lt_of_mem_numbers mode P (hms ▸ hn)) hq
  rw [pow_width]
  rcases List.mem_cons.1 (hflagged ▸ hn) with rfl | hn
  · exact add_mul_lt (hlt m List.mem_cons_self) (flags_lt mode P)
  · have := hlt n (List.mem_cons_of_mem _ hn)
    omega

/-- The numbers are read as they were written. -/
theorem read_flagged (hq : q ≤ flagUnit) :
    (List.range (HasParts.numParts K * mode.numCoordinates)).map (fun i ↦
      ofLittleEndian (((encode mode P).drop (width * i)).take width).reverse) = flagged mode P := by
  have hpieces := map_range_pieces (l := flagged mode P) fun n _ ↦ length_digits n
  rw [length_flagged, ← encode_eq] at hpieces
  calc _ = ((flagged mode P).map digits).map fun raw ↦ ofLittleEndian raw.reverse := by
        rw [← hpieces, List.map_map]
        rfl
    _ = (flagged mode P).map id := by
        rw [List.map_map]
        refine List.map_congr_left fun n hn ↦ ?_
        rw [Function.comp_apply, digits, List.reverse_reverse]
        exact ofLittleEndian_littleEndian (flagged_lt mode P hq hn)
    _ = flagged mode P := List.map_id _

/-- The flags are read off the first number, which is then as it was. -/
theorem read_flags (hq : q ≤ flagUnit) : (flagged mode P).headD 0 / flagUnit = flags mode P ∧
    (flagged mode P).modify 0 (· % flagUnit) = numbers mode P := by
  obtain ⟨n, ns, hns, hflagged⟩ := exists_flagged_eq_cons mode P
  have hn : n < flagUnit :=
    Nat.lt_of_lt_of_le (lt_of_mem_numbers mode P (hns ▸ List.mem_cons_self)) hq
  obtain ⟨hdiv, hmod⟩ := add_mul_div_mod (k := flags mode P) hn
  rw [hflagged, List.headD_cons, List.modify_zero_cons, hns, hmod]
  exact ⟨hdiv, rfl⟩

theorem coordinate_numbersOf (x : K) : coordinate (numbersOf x) = .ok x := by
  rw [coordinate, numbersOf, List.reverse_reverse]
  refine bind_eq_ok_iff.2 ⟨HasParts.toParts x, ?_, ?_⟩
  · rw [mapM_eq_ok_iff, List.forall₂_map_left_iff, List.forall₂_same]
    exact fun part _ ↦ dif_pos part.val_lt
  · rw [LawfulParts.ofParts?_toParts]
    rfl

/-- The coordinates are read off the numbers. -/
theorem read_coordinates :
    (List.range mode.numCoordinates).mapM (fun i ↦ coordinate (K := K)
      (((numbers mode P).drop (HasParts.numParts K * i)).take (HasParts.numParts K))) =
      .ok (P.coordinates mode) := by
  have hpieces := map_range_pieces (l := P.coordinates mode) fun x _ ↦ length_numbersOf x
  rw [Point.length_coordinates] at hpieces
  calc _ = ((P.coordinates mode).map numbersOf).mapM (coordinate (K := K)) := by
        rw [← hpieces, List.mapM_map]
        rfl
    _ = .ok (P.coordinates mode) := by
        rw [mapM_eq_ok_iff, List.forall₂_map_left_iff, List.forall₂_same]
        exact fun x _ ↦ coordinate_numbersOf x

theorem eq_zero_of_mem_numbers_infinity {n : ℕ} (hn : n ∈ numbers mode (.infinity : Point E)) :
    n = 0 := by
  obtain ⟨x, hx, hn⟩ := List.mem_flatMap.1 hn
  obtain ⟨part, hpart, rfl⟩ := List.mem_map.1 (List.mem_reverse.1 hn)
  rw [List.eq_of_mem_replicate hx] at hpart
  exact LawfulParts.val_toParts_zero part hpart

/-- **A point is read as it was written**, and what follows it is left. -/
theorem decode_encode (hq : q ≤ flagUnit) (hP : P.IsRecoverable) (rest : List UInt8) :
    decode mode (encode mode P ++ rest) = .ok (P, rest) := by
  have htake : Codec.takeBytes .invalid (width * (HasParts.numParts K * mode.numCoordinates))
      (encode mode P ++ rest) = .ok (encode mode P, rest) :=
    Codec.takeBytes_eq_ok_iff.2 ⟨length_encode mode P, rfl⟩
  have hnumbers := read_flagged mode P hq
  obtain ⟨hflags, hunflagged⟩ := read_flags mode P hq
  obtain ⟨hcompressed, hinfinity, hupper⟩ := flags_spec mode P
  refine bind_eq_ok_iff.2 ⟨_, htake, ite_throw_eq_ok_iff.2 ⟨?_, ite_throw_eq_ok_iff.2 ⟨?_, ?_⟩⟩⟩
  -- the flags go together, and fit the mode
  · rw [hnumbers, hflags, hupper, hcompressed, hinfinity]
    cases P <;> simp +contextual [Point.isUpper]
  · rw [hnumbers, hflags, hcompressed, bne_self_eq_false]
    exact Bool.false_ne_true
  · rw [hnumbers, hflags, hunflagged, hinfinity, hupper]
    cases P with
    | infinity =>
      rw [decide_eq_true rfl, if_pos rfl, if_pos]
      · rfl
      · exact List.all_eq_true.2 fun n hn ↦ decide_eq_true (eq_zero_of_mem_numbers_infinity mode hn)
    | affine x y =>
      have hfinite : decide ((.affine x y : Point E) = .infinity) = false := decide_eq_false nofun
      rw [hfinite, if_neg Bool.false_ne_true]
      refine bind_eq_ok_iff.2 ⟨_, read_coordinates mode _, ?_⟩
      refine bind_eq_ok_iff.2 ⟨_, Point.ofCoordinates_coordinates hP fun h ↦ ?_, rfl⟩
      rw [h]
      rfl

end LeadingFormat

/-! ### Flags at the end -/

namespace TrailingFormat

variable {E : Curve K} (mode : Compression) (P : Point E)

theorem pow_width : 256 ^ width = 4 * infinityFlag := by decide +kernel

/-- The residues of a point. -/
def parts : List (Fp q) := (P.coordinates mode).flatMap HasParts.toParts

omit [HasParts q K] in
/-- The flags are two binary digits. -/
theorem exists_flags_eq : ∃ k < 4, flags P = k * infinityFlag ∧
    decide (k % 2 = 1) = decide (P = .infinity) ∧ decide (k / 2 % 2 = 1) = P.isUpper := by
  cases P with
  | infinity => exact ⟨1, by decide, by simp [flags, Point.isUpper], rfl, rfl⟩
  | affine x y =>
    cases hy : CoordinateField.isUpper y with
    | true => exact ⟨2, by decide, by simp [flags, Point.isUpper, hy], rfl, hy.symm⟩
    | false => exact ⟨0, by decide, by simp [flags, Point.isUpper, hy], rfl, hy.symm⟩

omit [HasParts q K] in
/-- The last residue is read with the flags above its digits. -/
theorem decodeLast_eq (hq : q ≤ infinityFlag) (last : Fp q) (rest : List UInt8) :
    decodeLast (littleEndian width (last.val + flags P) ++ rest) =
      .ok ((last, decide (P = .infinity), P.isUpper), rest) := by
  obtain ⟨k, hk, hflags, hinfinity, hupper⟩ := exists_flags_eq P
  have hlast : last.val < infinityFlag := Nat.lt_of_lt_of_le last.val_lt hq
  have hlt : last.val + k * infinityFlag < 256 ^ width := by
    rw [pow_width]
    exact add_mul_lt hlast hk
  obtain ⟨hdiv, hmod⟩ := add_mul_div_mod (k := k) hlast
  rw [hflags]
  refine bind_eq_ok_iff.2 ⟨_, Codec.RoundTrips.number width _ rest hlt, ?_⟩
  simp only [Nat.mul_comm 2 infinityFlag, ← Nat.div_div_eq_div_mul, hdiv, hmod, hinfinity, hupper]
  refine ite_throw_eq_ok_iff.2 ⟨?_, dif_pos last.val_lt⟩
  cases P <;> simp [Point.isUpper]

variable [LawfulParts K]

theorem length_parts : (parts mode P).length = HasParts.numParts K * mode.numCoordinates := by
  rw [parts, length_flatMap_pieces fun x _ ↦ LawfulParts.length_toParts x, Point.length_coordinates]

/-- The residues are written one after the other, the last one with the flags. -/
theorem exists_encode_eq : ∃ init last, parts mode P = init ++ [last] ∧
    encode mode P = init.flatMap (Codec.residue q width).encode ++
      littleEndian width (last.val + flags P) := by
  have hpos : 0 < (parts mode P).length := by
    rw [length_parts]
    exact LawfulParts.numParts_mul_pos mode
  obtain ⟨init, last, hparts⟩ :=
    (List.eq_nil_or_concat' _).resolve_left (List.ne_nil_of_length_pos hpos)
  refine ⟨init, last, hparts, ?_⟩
  have hnumbers : ((P.coordinates mode).flatMap fun x ↦ (HasParts.toParts x).map (·.val)) =
      init.map (·.val) ++ [last.val] := by
    rw [← List.map_flatMap, show (P.coordinates mode).flatMap HasParts.toParts = _ from hparts,
      List.map_append, List.map_singleton]
  rw [encode, hnumbers]
  show ((_ ++ [_]).modify _ _).flatMap _ = _
  rw [List.length_append, List.length_singleton, Nat.add_sub_cancel, modify_append_singleton,
    List.flatMap_append, List.flatMap_map, List.flatMap_singleton]
  rfl

/-- Every point is written with as many bytes. -/
theorem length_encode :
    (encode mode P).length = width * (HasParts.numParts K * mode.numCoordinates) := by
  obtain ⟨init, last, hparts, hencode⟩ := exists_encode_eq mode P
  rw [hencode, List.length_append, length_littleEndian,
    length_flatMap_pieces fun x _ ↦ length_littleEndian width x.val, ← length_parts mode P, hparts,
    List.length_append, List.length_singleton, Nat.mul_succ]

/-- The coordinates are read off the residues. -/
theorem read_coordinates :
    (List.range mode.numCoordinates).filterMap (fun i ↦ HasParts.ofParts? (K := K)
      (((parts mode P).drop (HasParts.numParts K * i)).take (HasParts.numParts K))) =
      P.coordinates mode := by
  have hlength : ∀ x ∈ P.coordinates mode, (HasParts.toParts x).length = HasParts.numParts K :=
    fun x _ ↦ LawfulParts.length_toParts x
  have hpieces := map_range_pieces hlength
  rw [Point.length_coordinates] at hpieces
  calc _ = ((P.coordinates mode).map HasParts.toParts).filterMap HasParts.ofParts? := by
        rw [← hpieces, List.filterMap_map]
        rfl
    _ = (P.coordinates mode).filterMap some := by
        rw [List.filterMap_map]
        exact List.filterMap_congr fun x _ ↦ LawfulParts.ofParts?_toParts x
    _ = P.coordinates mode := List.filterMap_some

/-- **A point is read as it was written**, and what follows it is left. -/
theorem decode_encode (hq : q ≤ infinityFlag) (hP : P.IsRecoverable) (rest : List UInt8) :
    decode mode (encode mode P ++ rest) = .ok (P, rest) := by
  obtain ⟨init, last, hparts, hencode⟩ := exists_encode_eq mode P
  have hinit : HasParts.numParts K * mode.numCoordinates - 1 = init.length := by
    rw [← length_parts mode P, hparts, List.length_append, List.length_singleton,
      Nat.add_sub_cancel]
  have hwidth : q ≤ 256 ^ width := by
    rw [pow_width]
    omega
  have hresidues := Codec.RoundTrips.residue hwidth
  rw [hencode, List.append_assoc, decode, hinit]
  refine bind_eq_ok_iff.2 ⟨_, hresidues.decodeMany (fun _ _ ↦ trivial) _, ?_⟩
  refine bind_eq_ok_iff.2 ⟨_, decodeLast_eq P hq last rest, ?_⟩
  dsimp only
  rw [← hparts, read_coordinates]
  cases P with
  | infinity => rfl
  | affine x y => exact bind_eq_ok_iff.2 ⟨_, Point.ofCoordinates_coordinates hP fun _ ↦ rfl, rfl⟩

end TrailingFormat

/-! ### Lawful formats -/

namespace PointFormat

/-- What is relied on of the format of a group, for the elements that are members. -/
structure IsLawful (G : Type) [PointFormat G] (member : G → Prop) : Prop where
  /-- A member is read as it was written, and what follows it is left. -/
  roundTrips : ∀ mode, (codec mode : Codec G).RoundTrips member
  /-- In one mode all members are written with as many bytes, and not with none. -/
  exists_length_eq : ∀ mode, ∃ width, 0 < width ∧
    ∀ P : G, member P → ((codec mode).encode P).length = width
  /-- Members pass the check of a single element. -/
  accepts_eq : ∀ P : G, member P → accepts P = true
  /-- Members pass the check of an element of a list. -/
  acceptsListed_eq : ∀ P : G, member P → acceptsListed P = true

/-- A point that passes the check for lists, and whose second coordinate can be left out. -/
def IsMember {E : Curve K} [PointFormat (Point E)] (P : Point E) : Prop :=
  acceptsListed P = true ∧ P.IsRecoverable

instance {E : Curve K} [PointFormat (Point E)] (P : Point E) : Decidable (IsMember P) :=
  inferInstanceAs (Decidable (_ ∧ _))

/-- A format of the points of a curve is lawful when recoverable points are read as they were
written, in numbers of one width, and the check of a single point asks no more than the one of a
point in a list. -/
theorem IsLawful.ofPoints {E : Curve K} [LawfulParts K] [PointFormat (Point E)] {width : ℕ}
    (hwidth : 0 < width)
    (hlength : ∀ mode (P : Point E),
      ((codec mode).encode P).length = width * (HasParts.numParts K * mode.numCoordinates))
    (hdecode : ∀ mode (P : Point E) rest, P.IsRecoverable →
      (codec mode).decode ((codec mode).encode P ++ rest) = .ok (P, rest))
    (haccepts : ∀ P : Point E, acceptsListed P = true → accepts P = true) :
    IsLawful (Point E) IsMember where
  roundTrips mode P rest hP := hdecode mode P rest hP.2
  exists_length_eq mode :=
    ⟨_, Nat.mul_pos hwidth (LawfulParts.numParts_mul_pos (K := K) mode), fun P _ ↦ hlength mode P⟩
  accepts_eq P hP := haccepts P hP.1
  acceptsListed_eq _ hP := hP.1

/-- **The formats of the curves are lawful.** -/
theorem isLawful_curves :
    IsLawful Bls12381.G1 IsMember ∧ IsLawful Bls12381.G2 IsMember ∧
      IsLawful Bn254.G1 IsMember ∧ IsLawful Bn254.G2 IsMember := by
  have hleading : Bls12381.q ≤ LeadingFormat.flagUnit := by decide +kernel
  have htrailing : Bn254.q ≤ TrailingFormat.infinityFlag := by decide +kernel
  have hwidth : 0 < LeadingFormat.width := by decide
  have hwidth' : 0 < TrailingFormat.width := by decide
  refine ⟨?_, ?_, ?_, ?_⟩
  · exact .ofPoints hwidth (fun mode P ↦ LeadingFormat.length_encode mode P)
      (fun mode P rest hP ↦ LeadingFormat.decode_encode mode P hleading hP rest)
      fun _ hP ↦ (Bool.and_eq_true_iff.1 hP).2
  · exact .ofPoints hwidth (fun mode P ↦ LeadingFormat.length_encode mode P)
      (fun mode P rest hP ↦ LeadingFormat.decode_encode mode P hleading hP rest)
      fun _ hP ↦ (Bool.and_eq_true_iff.1 hP).2
  · exact .ofPoints hwidth' (fun mode P ↦ TrailingFormat.length_encode mode P)
      (fun mode P rest hP ↦ TrailingFormat.decode_encode mode P htrailing hP rest) fun _ hP ↦ hP
  · exact .ofPoints hwidth' (fun mode P ↦ TrailingFormat.length_encode mode P)
      (fun mode P rest hP ↦ TrailingFormat.decode_encode mode P htrailing hP rest) fun _ hP ↦ hP

end PointFormat

end SuccinctProof
