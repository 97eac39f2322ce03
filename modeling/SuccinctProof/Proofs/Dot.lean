import Mathlib.Algebra.BigOperators.Group.List.Basic
import Mathlib.Tactic.Ring
import SuccinctProof.Proofs.Field
import SuccinctProof.RankOneSystem

/-!
# Dot products

A dot product stops at the shorter of its two lists. The lemmas here say when that is harmless: a
tail that has no partner counts nothing (`dot_take_left`), and lists that are cut at the same place
can be multiplied piece by piece (`dot_append`).

The second argument is often a list of values computed from some data, and the product is then
linear in the computation (`dot_map_add`, `dot_map_mul_left`).
-/

namespace SuccinctProof

variable {p : ℕ} [Modulus p]

@[simp] theorem dot_nil_left (ys : List (Fp p)) : dot [] ys = 0 := rfl

@[simp] theorem dot_nil_right (xs : List (Fp p)) : dot xs [] = 0 := by
  rw [dot, List.zipWith_nil_right, List.sum_nil]

theorem dot_cons (x y : Fp p) (xs ys : List (Fp p)) :
    dot (x :: xs) (y :: ys) = x * y + dot xs ys := by
  rw [dot, List.zipWith_cons_cons, List.sum_cons, dot]

theorem dot_comm (xs ys : List (Fp p)) : dot xs ys = dot ys xs := by
  rw [dot, dot, List.zipWith_comm_of_comm mul_comm]

theorem dot_append {xs xs' ys ys' : List (Fp p)} (h : xs.length = ys.length) :
    dot (xs ++ xs') (ys ++ ys') = dot xs ys + dot xs' ys' := by
  rw [dot, List.zipWith_append h, List.sum_append, dot, dot]

/-- A dot product is one over the first entries and one over the others. -/
theorem dot_take_add_dot_drop (n : ℕ) {xs ys : List (Fp p)} (h : xs.length = ys.length) :
    dot (xs.take n) (ys.take n) + dot (xs.drop n) (ys.drop n) = dot xs ys := by
  rw [← dot_append, List.take_append_drop, List.take_append_drop]
  rw [List.length_take, List.length_take, h]

/-- What stands beyond the other list does not count. -/
theorem dot_take_left {n : ℕ} (xs : List (Fp p)) {ys : List (Fp p)} (h : ys.length ≤ n) :
    dot (xs.take n) ys = dot xs ys := by
  rw [dot, dot, ← List.take_of_length_le (l := List.zipWith _ xs ys) (i := n),
    List.take_zipWith, List.take_of_length_le h]
  rw [List.length_zipWith]
  exact (Nat.min_le_right _ _).trans h

theorem dot_take_right {n : ℕ} {xs : List (Fp p)} (ys : List (Fp p)) (h : xs.length ≤ n) :
    dot xs (ys.take n) = dot xs ys := by
  rw [dot_comm, dot_take_left ys h, dot_comm]

/-- The entries of a list that have a partner in another list, less their partners. -/
theorem dot_zipWith_sub (zs : List (Fp p)) {xs ys : List (Fp p)} (h : ys.length ≤ xs.length) :
    dot (xs.zipWith (· - ·) ys) zs = dot (xs.take ys.length) zs - dot ys zs := by
  induction ys generalizing xs zs with
  | nil => simp
  | cons y ys ih =>
    obtain ⟨x, xs, rfl⟩ := List.exists_cons_of_length_pos (Nat.lt_of_lt_of_le (Nat.succ_pos _) h)
    cases zs with
    | nil => simp
    | cons z zs =>
      rw [List.zipWith_cons_cons, dot_cons, ih zs (Nat.le_of_succ_le_succ h), List.length_cons,
        List.take_succ_cons, dot_cons, dot_cons]
      ring

/-- Dot products with one list add up. -/
theorem dot_zipWith_add (zs : List (Fp p)) {xs ys : List (Fp p)} (h : xs.length = ys.length) :
    dot (xs.zipWith (· + ·) ys) zs = dot xs zs + dot ys zs := by
  induction ys generalizing xs zs with
  | nil => simp [List.length_eq_zero_iff.1 h]
  | cons y ys ih =>
    obtain ⟨x, xs, rfl⟩ := List.exists_cons_of_length_eq_add_one h
    cases zs with
    | nil => simp
    | cons z zs =>
      rw [List.zipWith_cons_cons, dot_cons, ih zs (Nat.succ.inj h), dot_cons, dot_cons]
      ring

@[simp] theorem dot_replicate_zero (n : ℕ) (ys : List (Fp p)) :
    dot (List.replicate n 0) ys = 0 := by
  induction n generalizing ys with
  | zero => rfl
  | succ n ih =>
    cases ys with
    | nil => exact dot_nil_right _
    | cons y ys => rw [List.replicate_succ, dot_cons, ih, zero_mul, add_zero]

/-- **A list with a single entry picks the partner of that entry.** -/
theorem dot_set_zero {n i : ℕ} (x : Fp p) {ys : List (Fp p)} (hn : i < n) (hi : i < ys.length) :
    dot ((List.replicate n 0).set i x) ys = x * ys[i] := by
  induction n generalizing i ys with
  | zero => exact absurd hn (Nat.not_lt_zero i)
  | succ n ih =>
    cases ys with
    | nil => exact absurd hi (Nat.not_lt_zero i)
    | cons y ys =>
      cases i with
      | zero => rw [List.replicate_succ, List.set_cons_zero, dot_cons, dot_replicate_zero]; simp
      | succ i =>
        rw [List.replicate_succ, List.set_cons_succ, dot_cons,
          ih (Nat.lt_of_succ_lt_succ hn) (Nat.lt_of_succ_lt_succ hi), zero_mul, zero_add]
        rfl

/-- Adding to an entry adds that much of its partner. -/
theorem dot_modify_add {i : ℕ} (x : Fp p) {xs ys : List (Fp p)} (h : xs.length = ys.length) :
    dot (xs.modify i (· + x)) ys = dot xs ys + x * ys.getD i 0 := by
  induction xs generalizing i ys with
  | nil =>
    obtain rfl := List.length_eq_zero_iff.1 h.symm
    simp
  | cons x' xs ih =>
    obtain ⟨y, ys, rfl⟩ := List.exists_cons_of_length_eq_add_one h.symm
    cases i with
    | zero =>
      rw [List.modify_zero_cons, dot_cons, dot_cons, List.getD_cons_zero]
      ring
    | succ i =>
      rw [List.modify_succ_cons, dot_cons, dot_cons, ih (Nat.succ.inj h), List.getD_cons_succ,
        add_assoc]

/-! ### Linearity -/

variable {α : Type}

theorem dot_map_add (ws : List (Fp p)) (l : List α) (f g : α → Fp p) :
    dot ws (l.map fun t ↦ f t + g t) = dot ws (l.map f) + dot ws (l.map g) := by
  induction l generalizing ws with
  | nil => simp
  | cons t l ih =>
    cases ws with
    | nil => simp
    | cons w ws => simp only [List.map_cons, dot_cons, ih]; ring

theorem dot_map_mul_left (ws : List (Fp p)) (l : List α) (k : Fp p) (f : α → Fp p) :
    dot ws (l.map fun t ↦ k * f t) = k * dot ws (l.map f) := by
  induction l generalizing ws with
  | nil => simp
  | cons t l ih =>
    cases ws with
    | nil => simp
    | cons w ws => simp only [List.map_cons, dot_cons, ih]; ring

theorem dot_map_mul (ws ys : List (Fp p)) (k : Fp p) :
    dot ws (ys.map (k * ·)) = k * dot ws ys := by
  have h := dot_map_mul_left ws ys k id
  rwa [List.map_id] at h

end SuccinctProof
