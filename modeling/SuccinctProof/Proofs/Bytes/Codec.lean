import Mathlib.Algebra.BigOperators.Group.List.Basic
import SuccinctProof.Bytes.Codec
import SuccinctProof.Proofs.Refusal

/-!
# Formats that lose nothing

Two properties of a byte format, both for the values that fit it (numbers with no more digits than
there is room for, lists no longer than a length can say):

* it *round-trips* (`Codec.RoundTrips`): what was written is read back, and whatever follows it is
  left alone, so the bytes of a value say themselves where they end;
* it is *canonical* (`Codec.IsCanonical`): what is read fits, and the bytes that were read are those
  that would be written for it, so no value has a second form.

A format with the first is self-delimiting (`RoundTrips.isSelfDelimiting`): no encoding is another
one, or the beginning of another one. A format with both is *exact* (`Codec.IsExact`): reading
accepts what writing produces and nothing else (`IsExact.decode_eq_ok_iff`). Each way of building
formats keeps both properties, and a condition that is checked keeps the first. A list asks
for one more thing: before any item is read its length is compared with the number of bytes, which
cannot refuse what was written only because every item has at least one byte.
-/

namespace SuccinctProof

/-! ### Digits -/

theorem ofLittleEndian_littleEndian {width n : ℕ} (hn : n < 256 ^ width) :
    ofLittleEndian (littleEndian width n) = n := by
  induction width generalizing n with
  | zero => rw [pow_zero, Nat.lt_one_iff] at hn; rw [hn]; rfl
  | succ width ih =>
    have hdiv : n / 256 < 256 ^ width := Nat.div_lt_of_lt_mul (by rwa [pow_succ'] at hn)
    rw [littleEndian, ofLittleEndian, ih hdiv, UInt8.toNat_ofNat', Nat.mod_mod]
    exact Nat.mod_add_div n 256

theorem ofLittleEndian_lt (bytes : List UInt8) : ofLittleEndian bytes < 256 ^ bytes.length := by
  induction bytes with
  | nil => exact Nat.one_pos
  | cons b bytes ih =>
    have hb := b.toNat_lt
    rw [ofLittleEndian, List.length_cons, pow_succ']
    omega

theorem littleEndian_ofLittleEndian (bytes : List UInt8) :
    littleEndian bytes.length (ofLittleEndian bytes) = bytes := by
  induction bytes with
  | nil => rfl
  | cons b bytes ih =>
    have hb := b.toNat_lt
    have hmod : (b.toNat + 256 * ofLittleEndian bytes) % 256 = b.toNat := by omega
    have hdiv : (b.toNat + 256 * ofLittleEndian bytes) / 256 = ofLittleEndian bytes := by omega
    rw [ofLittleEndian, List.length_cons, littleEndian, hmod, hdiv, ih, UInt8.ofNat_toNat]

namespace Codec

variable {α β : Type} {c : Codec α} {fits : α → Prop}

/-- What was written for a fitting value is read back, and what follows it is left. -/
def RoundTrips (c : Codec α) (fits : α → Prop) : Prop :=
  ∀ x rest, fits x → c.decode (c.encode x ++ rest) = .ok (x, rest)

/-- What is read fits, and was written in the only way there is. -/
def IsCanonical (c : Codec α) (fits : α → Prop) : Prop :=
  ∀ bytes x rest, c.decode bytes = .ok (x, rest) → fits x ∧ c.encode x ++ rest = bytes

/-- A format that reads back all that fits, and reads nothing but what it writes. -/
structure IsExact (c : Codec α) (fits : α → Prop) : Prop where
  roundTrips : c.RoundTrips fits
  isCanonical : c.IsCanonical fits

/-- **Reading accepts exactly what writing produces**, and leaves what follows it. -/
theorem IsExact.decode_eq_ok_iff (hc : c.IsExact fits) {bytes : List UInt8} {x : α}
    {rest : List UInt8} :
    c.decode bytes = .ok (x, rest) ↔ fits x ∧ c.encode x ++ rest = bytes := by
  refine ⟨hc.isCanonical bytes x rest, ?_⟩
  rintro ⟨hx, rfl⟩
  exact hc.roundTrips x rest hx

/-- A format whose encodings say themselves where they end. -/
structure IsSelfDelimiting (c : Codec α) (fits : α → Prop) : Prop where
  /-- What was written is read back, and what follows it is left. -/
  roundTrips : c.RoundTrips fits
  /-- No two values are written in the same way. -/
  encode_inj : ∀ x y, fits x → fits y → c.encode x = c.encode y → x = y
  /-- Nothing can be appended to what is written for one value to make it another's. -/
  eq_nil_of_append_eq : ∀ x y rest, fits x → fits y → c.encode x ++ rest = c.encode y → rest = []

/-- **A format that round-trips is self-delimiting**, since reading an encoding tells the value and
where it ends. -/
theorem RoundTrips.isSelfDelimiting (hc : c.RoundTrips fits) : c.IsSelfDelimiting fits := by
  have hread : ∀ x y rest, fits x → fits y → c.encode x ++ rest = c.encode y →
      y = x ∧ rest = [] := by
    intro x y rest hx hy h
    have hy' := hc y [] hy
    rw [List.append_nil, ← h, hc x rest hx] at hy'
    obtain ⟨rfl, hrest⟩ := Prod.mk.inj (Except.ok.inj hy')
    exact ⟨rfl, hrest⟩
  refine ⟨hc, fun x y hx hy h ↦ ?_, fun x y rest hx hy h ↦ (hread x y rest hx hy h).2⟩
  exact (hread x y [] hx hy (by rw [List.append_nil, h])).1.symm

theorem RoundTrips.mono {fits' : α → Prop} (hc : c.RoundTrips fits) (h : ∀ x, fits' x → fits x) :
    c.RoundTrips fits' :=
  fun x rest hx ↦ hc x rest (h x hx)

/-- A condition does not keep a format from round-tripping, when all that fits satisfies it. -/
theorem RoundTrips.checked {accept : α → Bool} (hc : c.RoundTrips fits)
    (h : ∀ x, fits x → accept x = true) : (c.checked accept).RoundTrips fits :=
  fun x rest hx ↦ bind_eq_ok_iff.2 ⟨_, hc x rest hx, if_pos (h x hx)⟩

theorem IsExact.congr {fits' : α → Prop} (hc : c.IsExact fits) (h : ∀ x, fits x ↔ fits' x) :
    c.IsExact fits' where
  roundTrips x rest hx := hc.roundTrips x rest ((h x).2 hx)
  isCanonical bytes x rest hx := (hc.isCanonical bytes x rest hx).imp_left (h x).1

/-! ### Numbers -/

/-- **Taking bytes cuts a byte list in two**, after as many bytes as were asked for. -/
theorem takeBytes_eq_ok_iff {e : DecodeError} {n : ℕ} {bytes taken rest : List UInt8} :
    takeBytes e n bytes = .ok (taken, rest) ↔ taken.length = n ∧ taken ++ rest = bytes := by
  rw [takeBytes]
  split
  · next hlt =>
    refine ⟨fun h ↦ (nomatch h), fun ⟨hlen, heq⟩ ↦ ?_⟩
    rw [← heq, List.length_append] at hlt
    omega
  · next hge =>
    rw [List.splitAt_eq, Except.ok.injEq, Prod.mk.injEq]
    constructor
    · rintro ⟨rfl, rfl⟩
      exact ⟨List.length_take_of_le (by omega), List.take_append_drop n bytes⟩
    · rintro ⟨rfl, rfl⟩
      exact ⟨List.take_left, List.drop_left⟩

theorem RoundTrips.number (width : ℕ) : (number width).RoundTrips (· < 256 ^ width) := by
  intro n rest hn
  have htake : takeBytes .truncated width (littleEndian width n ++ rest) =
      .ok (littleEndian width n, rest) :=
    takeBytes_eq_ok_iff.2 ⟨length_littleEndian width n, rfl⟩
  refine bind_eq_ok_iff.2 ⟨_, htake, ?_⟩
  show Except.ok (ofLittleEndian (littleEndian width n), rest) = _
  rw [ofLittleEndian_littleEndian hn]

theorem IsCanonical.number (width : ℕ) : (number width).IsCanonical (· < 256 ^ width) := by
  intro bytes n rest h
  obtain ⟨⟨digits, _⟩, htake, h⟩ := bind_eq_ok_iff.1 h
  obtain ⟨rfl, rfl⟩ := Prod.mk.inj (pure_eq_ok_iff.1 h)
  obtain ⟨rfl, rfl⟩ := takeBytes_eq_ok_iff.1 htake
  exact ⟨ofLittleEndian_lt digits, congrArg (· ++ _) (littleEndian_ofLittleEndian digits)⟩

theorem isExact_number (width : ℕ) : (Codec.number width).IsExact (· < 256 ^ width) :=
  ⟨.number width, .number width⟩

/-! ### Residues -/

section Residue

variable {p width : ℕ}

theorem RoundTrips.residue (hp : p ≤ 256 ^ width) :
    (residue p width).RoundTrips fun _ ↦ True := by
  intro x rest _
  have hnumber := RoundTrips.number width x.val rest (Nat.lt_of_lt_of_le x.val_lt hp)
  exact bind_eq_ok_iff.2 ⟨_, hnumber, dif_pos x.val_lt⟩

theorem IsCanonical.residue : (residue p width).IsCanonical fun _ ↦ True := by
  intro bytes x rest h
  obtain ⟨⟨n, _⟩, hnumber, h⟩ := bind_eq_ok_iff.1 h
  dsimp only at h
  split at h
  · obtain ⟨rfl, rfl⟩ := Prod.mk.inj (pure_eq_ok_iff.1 h)
    exact ⟨trivial, (IsCanonical.number width _ _ _ hnumber).2⟩
  · exact nomatch h

theorem isExact_residue (hp : p ≤ 256 ^ width) : (Codec.residue p width).IsExact fun _ ↦ True :=
  ⟨.residue hp, .residue⟩

end Residue

/-! ### Pairs and corresponding values -/

section Pair

variable {d : Codec β} {fits' : β → Prop}

theorem RoundTrips.pair (hc : c.RoundTrips fits) (hd : d.RoundTrips fits') :
    (c.pair d).RoundTrips fun x ↦ fits x.1 ∧ fits' x.2 := by
  rintro ⟨x, y⟩ rest ⟨hx, hy⟩
  show (c.pair d).decode (c.encode x ++ d.encode y ++ rest) = _
  rw [List.append_assoc]
  exact bind_eq_ok_iff.2 ⟨_, hc x _ hx, bind_eq_ok_iff.2 ⟨_, hd y rest hy, rfl⟩⟩

theorem IsCanonical.pair (hc : c.IsCanonical fits) (hd : d.IsCanonical fits') :
    (c.pair d).IsCanonical fun x ↦ fits x.1 ∧ fits' x.2 := by
  intro bytes xy rest h
  obtain ⟨⟨x, _⟩, hx, h⟩ := bind_eq_ok_iff.1 h
  obtain ⟨⟨y, _⟩, hy, h⟩ := bind_eq_ok_iff.1 h
  obtain ⟨rfl, rfl⟩ := Prod.mk.inj (pure_eq_ok_iff.1 h)
  obtain ⟨hfitsX, rfl⟩ := hc _ _ _ hx
  obtain ⟨hfitsY, rfl⟩ := hd _ _ _ hy
  exact ⟨⟨hfitsX, hfitsY⟩, List.append_assoc ..⟩

theorem IsExact.pair (hc : c.IsExact fits) (hd : d.IsExact fits') :
    (c.pair d).IsExact fun x ↦ fits x.1 ∧ fits' x.2 :=
  ⟨hc.roundTrips.pair hd.roundTrips, hc.isCanonical.pair hd.isCanonical⟩

variable {forward : α → β} {backward : β → α}

theorem RoundTrips.map (hc : c.RoundTrips fits) (h : ∀ y, forward (backward y) = y) :
    (c.map forward backward).RoundTrips fun y ↦ fits (backward y) :=
  fun y rest hy ↦ bind_eq_ok_iff.2 ⟨_, hc _ rest hy, congrArg (fun y ↦ Except.ok (y, rest)) (h y)⟩

theorem IsCanonical.map (hc : c.IsCanonical fits) (h : ∀ x, backward (forward x) = x) :
    (c.map forward backward).IsCanonical fun y ↦ fits (backward y) := by
  intro bytes y rest hy
  obtain ⟨⟨x, _⟩, hx, hy⟩ := bind_eq_ok_iff.1 hy
  obtain ⟨rfl, rfl⟩ := Prod.mk.inj (pure_eq_ok_iff.1 hy)
  show fits (backward (forward x)) ∧ c.encode (backward (forward x)) ++ _ = _
  rw [h]
  exact hc _ _ _ hx

theorem IsExact.map (hc : c.IsExact fits) (hfor : ∀ y, forward (backward y) = y)
    (hback : ∀ x, backward (forward x) = x) :
    (c.map forward backward).IsExact fun y ↦ fits (backward y) :=
  ⟨hc.roundTrips.map hfor, hc.isCanonical.map hback⟩

end Pair

/-! ### Lists -/

/-- A list whose length has no more than eight bytes, and whose items fit. -/
def ListFits (fits : α → Prop) (xs : List α) : Prop := xs.length < 2 ^ 64 ∧ ∀ x ∈ xs, fits x

theorem RoundTrips.decodeMany (hc : c.RoundTrips fits) {xs : List α} (hxs : ∀ x ∈ xs, fits x)
    (rest : List UInt8) :
    c.decodeMany xs.length (xs.flatMap c.encode ++ rest) = .ok (xs, rest) := by
  induction xs with
  | nil => rfl
  | cons x xs ih =>
    obtain ⟨hx, hxs⟩ := List.forall_mem_cons.1 hxs
    rw [List.flatMap_cons, List.append_assoc]
    exact bind_eq_ok_iff.2 ⟨_, hc x _ hx, bind_eq_ok_iff.2 ⟨_, ih hxs, rfl⟩⟩

theorem IsCanonical.decodeMany (hc : c.IsCanonical fits) {n : ℕ} {bytes : List UInt8} {xs : List α}
    {rest : List UInt8} (h : c.decodeMany n bytes = .ok (xs, rest)) :
    xs.length = n ∧ (∀ x ∈ xs, fits x) ∧ xs.flatMap c.encode ++ rest = bytes := by
  induction n generalizing bytes xs with
  | zero =>
    obtain ⟨rfl, rfl⟩ := Prod.mk.inj (Except.ok.inj h)
    exact ⟨rfl, fun x hx ↦ (nomatch hx), rfl⟩
  | succ n ih =>
    obtain ⟨⟨x, _⟩, hx, h⟩ := bind_eq_ok_iff.1 h
    obtain ⟨⟨xs, _⟩, hxs, h⟩ := bind_eq_ok_iff.1 h
    obtain ⟨rfl, rfl⟩ := Prod.mk.inj (pure_eq_ok_iff.1 h)
    obtain ⟨hfits, rfl⟩ := hc _ _ _ hx
    obtain ⟨hlen, hall, rfl⟩ := ih hxs
    refine ⟨congrArg (· + 1) hlen, List.forall_mem_cons.2 ⟨hfits, hall⟩, ?_⟩
    rw [List.flatMap_cons, List.append_assoc]

/-- Items that have bytes are no more than the bytes they have together. -/
theorem length_le_length_flatMap {xs : List α} (hpos : ∀ x ∈ xs, 0 < (c.encode x).length) :
    xs.length ≤ (xs.flatMap c.encode).length := by
  rw [List.length_flatMap, ← List.length_map (f := fun x ↦ (c.encode x).length)]
  exact List.length_le_sum_of_one_le _ (List.forall_mem_map.2 hpos)

/-- **A list round-trips when its items do**, and none of them is written as nothing. -/
theorem RoundTrips.list (hc : c.RoundTrips fits) (hpos : ∀ x, fits x → 0 < (c.encode x).length) :
    c.list.RoundTrips (ListFits fits) := by
  rintro xs rest ⟨hlen, hxs⟩
  have hcount := RoundTrips.number 8 xs.length (xs.flatMap c.encode ++ rest) (by omega)
  have hroom : xs.length ≤ (xs.flatMap c.encode ++ rest).length := by
    rw [List.length_append]
    exact Nat.le_add_right_of_le (length_le_length_flatMap fun x hx ↦ hpos x (hxs x hx))
  show c.list.decode (count.encode xs.length ++ xs.flatMap c.encode ++ rest) = _
  rw [List.append_assoc]
  refine bind_eq_ok_iff.2 ⟨_, hcount, ite_throw_eq_ok_iff.2 ⟨?_, hc.decodeMany hxs rest⟩⟩
  simp only [Bool.and_eq_true, decide_eq_true_eq, not_and, Nat.not_lt]
  exact fun _ ↦ hroom

/-- **A list is canonical when its items are.** -/
theorem IsCanonical.list (hc : c.IsCanonical fits) :
    c.list.IsCanonical (ListFits fits) := by
  intro bytes xs rest h
  obtain ⟨⟨n, _⟩, hcount, h⟩ := bind_eq_ok_iff.1 h
  obtain ⟨hn, hbytes⟩ := IsCanonical.number 8 _ _ _ hcount
  obtain ⟨rfl, hxs, rfl⟩ := hc.decodeMany (ite_throw_eq_ok_iff.1 h).2
  exact ⟨⟨hn, hxs⟩, (List.append_assoc ..).trans hbytes⟩

theorem IsExact.list (hc : c.IsExact fits) (hpos : ∀ x, fits x → 0 < (c.encode x).length) :
    c.list.IsExact (ListFits fits) :=
  ⟨hc.roundTrips.list hpos, hc.isCanonical.list⟩

theorem length_encode_list_pos (xs : List α) : 0 < (c.list.encode xs).length := by
  show 0 < (littleEndian 8 xs.length ++ xs.flatMap c.encode).length
  rw [List.length_append, length_littleEndian]
  omega

end Codec

end SuccinctProof
