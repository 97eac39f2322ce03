import SuccinctProof.Proofs.Dot
import SuccinctProof.Proofs.Refusal

/-!
# Satisfied constraints

`RankOneSystem.firstViolated` walks over the rows and stops at the first one that does not hold. For
a system whose matrices have the same number of rows it is never refused on a vector of the right
length (`firstViolated_eq_findIdx?`), and it finds nothing exactly when every row holds
(`firstViolated_eq_none_iff`).
-/

namespace SuccinctProof.RankOneSystem

variable {p : ℕ} [Modulus p]

/-- The three matrices have the same number of rows. -/
structure SameHeight (m : RankOneSystem p) : Prop where
  /-- As many rows of right factors as of left factors. -/
  length_b : m.b.length = m.a.length
  /-- As many rows of products as of left factors. -/
  length_c : m.c.length = m.a.length

/-- The rows of a system, side by side. -/
def rows (m : RankOneSystem p) : List (List (Fp p) × List (Fp p) × List (Fp p)) :=
  m.a.zip (m.b.zip m.c)

/-- Constraint `i` of three lists of rows. -/
def RowHolds (w : List (Fp p)) (as bs cs : List (List (Fp p))) (i : ℕ) : Prop :=
  dot (as.getD i []) w * dot (bs.getD i []) w = dot (cs.getD i []) w

instance (w : List (Fp p)) (as bs cs : List (List (Fp p))) (i : ℕ) :
    Decidable (RowHolds w as bs cs i) :=
  inferInstanceAs (Decidable (_ = _))

/-- **The search is the one for the first position in the three lists side by side.** -/
theorem firstViolatedRow_eq_findIdx? (w : List (Fp p)) {as bs cs : List (List (Fp p))}
    (hb : bs.length = as.length) (hc : cs.length = as.length) :
    firstViolatedRow w as bs cs = .ok ((as.zip (bs.zip cs)).findIdx? fun (a, b, c) ↦
      dot a w * dot b w ≠ dot c w) := by
  induction as generalizing bs cs with
  | nil => rfl
  | cons a as ih =>
    obtain ⟨b, bs, rfl⟩ := List.exists_cons_of_length_eq_add_one hb
    obtain ⟨c, cs, rfl⟩ := List.exists_cons_of_length_eq_add_one hc
    rw [firstViolatedRow, ih (Nat.succ.inj hb) (Nat.succ.inj hc), List.zip_cons_cons,
      List.zip_cons_cons, List.findIdx?_cons]
    by_cases hrow : dot a w * dot b w = dot c w
    · rw [if_pos hrow, if_neg (by simpa using hrow)]
      rfl
    · rw [if_neg hrow, if_pos (by simpa using hrow)]

variable {m : RankOneSystem p}

omit [Modulus p] in
theorem map_fst_rows (hm : m.SameHeight) : m.rows.map (·.1) = m.a := by
  refine List.map_fst_zip ?_
  rw [List.length_zip, hm.length_b, hm.length_c, Nat.min_self]

omit [Modulus p] in
/-- The rows of the right factors and of the products, side by side. -/
theorem map_snd_rows (hm : m.SameHeight) : m.rows.map (·.2) = m.b.zip m.c := by
  refine List.map_snd_zip ?_
  rw [List.length_zip, hm.length_b, hm.length_c, Nat.min_self]

omit [Modulus p] in
theorem map_snd_fst_rows (hm : m.SameHeight) : m.rows.map (·.2.1) = m.b := by
  have hmap : m.rows.map (·.2.1) = (m.rows.map (·.2)).map (·.1) := List.map_map.symm
  rw [hmap, map_snd_rows hm]
  exact List.map_fst_zip (hm.length_b.trans hm.length_c.symm).le

omit [Modulus p] in
theorem map_snd_snd_rows (hm : m.SameHeight) : m.rows.map (·.2.2) = m.c := by
  have hmap : m.rows.map (·.2.2) = (m.rows.map (·.2)).map (·.2) := List.map_map.symm
  rw [hmap, map_snd_rows hm]
  exact List.map_snd_zip (hm.length_c.trans hm.length_b.symm).le

/-- An answer is only given for a vector with one value for each wire. -/
theorem length_of_firstViolated {w : List (Fp p)} {found : Option ℕ}
    (h : m.firstViolated w = .ok found) : w.length = m.numWires := by
  by_contra hne
  rw [firstViolated, if_pos hne] at h
  exact nomatch h

/-- For a vector with one value for each wire the answer is the first position at which the rows do
not hold. -/
theorem firstViolated_eq_findIdx? (hm : m.SameHeight) {w : List (Fp p)}
    (hw : w.length = m.numWires) :
    m.firstViolated w = .ok ((m.a.zip (m.b.zip m.c)).findIdx? fun (a, b, c) ↦
      dot a w * dot b w ≠ dot c w) := by
  rw [firstViolated, if_neg (not_not.2 hw), firstViolatedRow_eq_findIdx? w hm.length_b hm.length_c]

/-- **Nothing is found exactly when every constraint holds.** -/
theorem firstViolated_eq_none_iff (hm : m.SameHeight) {w : List (Fp p)}
    (hw : w.length = m.numWires) :
    m.firstViolated w = .ok none ↔ ∀ i < m.numConstraints, RowHolds w m.a m.b m.c i := by
  have hlength : (m.a.zip (m.b.zip m.c)).length = m.numConstraints := by
    rw [List.length_zip, List.length_zip, hm.length_b, hm.length_c, Nat.min_self, Nat.min_self,
      numConstraints]
  rw [firstViolated_eq_findIdx? hm hw, Except.ok.injEq, List.findIdx?_eq_none_iff,
    List.forall_mem_iff_forall_getElem]
  simp only [hlength]
  refine forall₂_congr fun i hi ↦ ?_
  have ha : i < m.a.length := hi
  simp [RowHolds, ha, hm.length_b, hm.length_c]

end SuccinctProof.RankOneSystem
