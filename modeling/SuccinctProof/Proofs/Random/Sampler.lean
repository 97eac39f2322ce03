import Mathlib.Data.Nat.Notation
import Mathlib.Tactic.SplitIfs
import SuccinctProof.Random.Sampler

/-!
# Samplers and the bound on their attempts

A bound on the attempts decides whether a sampler ends, and not what it gives when it does: with a
larger bound it ends on all streams on which it ended before, with the same value and after the same
words. `Sampler.Le` is this order, and every way of building samplers respects it (`Le.bind`,
`Le.retry`). So a statement about a sampler that ended is about the loop without a bound.

A value that rejection ends with was accepted by one of the attempts (`exists_of_retry_eq_some`).
For integers of a range this puts the value into the range (`mem_of_between_eq_some`).
-/

namespace SuccinctProof.Sampler

variable {α β : Type} {s : WordStream}

/-- Two samplers in a row end when both do, the second on the words that the first has left. -/
theorem bind_eq_some_iff {f : Sampler α} {g : α → Sampler β} {r : β × WordStream} :
    (f >>= g) s = some r ↔ ∃ a s', f s = some (a, s') ∧ g a s' = some r := by
  show (f s).bind (fun (a, s') ↦ g a s') = some r ↔ _
  rw [Option.bind_eq_some_iff, Prod.exists]

theorem pure_eq_some_iff {a : α} {r : α × WordStream} :
    (pure a : Sampler α) s = some r ↔ (a, s) = r :=
  Option.some_inj

/-- The second sampler ends whenever the first one does, with the same value and after the same
words. -/
def Le (f g : Sampler α) : Prop := ∀ s r, f s = some r → g s = some r

theorem Le.refl (f : Sampler α) : f.Le f := fun _ _ h ↦ h

theorem Le.bind {f f' : Sampler α} {g g' : α → Sampler β} (hf : f.Le f')
    (hg : ∀ a, (g a).Le (g' a)) : (f >>= g).Le (f' >>= g') := by
  intro s r h
  obtain ⟨a, s', ha, hr⟩ := bind_eq_some_iff.1 h
  exact bind_eq_some_iff.2 ⟨a, s', hf _ _ ha, hg a _ _ hr⟩

/-! ### Rejection -/

/-- A bounded loop ends at its first attempt, or goes on after it. -/
theorem retry_succ_eq_some_iff {n : ℕ} {f : Sampler (Option α)} {r : α × WordStream} :
    retry (n + 1) f s = some r ↔
      (∃ x s', f s = some (some x, s') ∧ (x, s') = r) ∨
        ∃ s', f s = some (none, s') ∧ retry n f s' = some r := by
  rw [retry, bind_eq_some_iff]
  constructor
  · rintro ⟨_ | x, s', hf, hr⟩
    · exact .inr ⟨s', hf, hr⟩
    · exact .inl ⟨x, s', hf, pure_eq_some_iff.1 hr⟩
  · rintro (⟨x, s', hf, hr⟩ | ⟨s', hf, hr⟩)
    · exact ⟨some x, s', hf, pure_eq_some_iff.2 hr⟩
    · exact ⟨none, s', hf, hr⟩

/-- **More attempts change nothing once a loop has ended.** -/
theorem Le.retry {f f' : Sampler (Option α)} (hf : f.Le f') {n n' : ℕ} (hn : n ≤ n') :
    (retry n f).Le (retry n' f') := by
  induction n generalizing n' with
  | zero => exact fun s r h ↦ nomatch h
  | succ n ih =>
    obtain ⟨n', rfl⟩ : ∃ k, n' = k + 1 := ⟨n' - 1, by omega⟩
    intro s r h
    refine retry_succ_eq_some_iff.2 ((retry_succ_eq_some_iff.1 h).imp ?_ ?_)
    · rintro ⟨x, s', hx, hr⟩
      exact ⟨x, s', hf _ _ hx, hr⟩
    · rintro ⟨s', hnone, hr⟩
      exact ⟨s', hf _ _ hnone, ih (Nat.le_of_succ_le_succ hn) _ _ hr⟩

/-- **The value of a loop is one that an attempt accepted.** -/
theorem exists_of_retry_eq_some {n : ℕ} {f : Sampler (Option α)} {x : α} {s' : WordStream}
    (h : retry n f s = some (x, s')) : ∃ s₀, f s₀ = some (some x, s') := by
  induction n generalizing s with
  | zero => exact nomatch h
  | succ n ih =>
    obtain ⟨y, s₁, hy, heq⟩ | ⟨s₁, -, hr⟩ := retry_succ_eq_some_iff.1 h
    · obtain ⟨rfl, rfl⟩ := Prod.mk.inj heq
      exact ⟨s, hy⟩
    · exact ih hr

theorem uniform_le {p : ℕ} [Modulus p] {n n' : ℕ} (hn : n ≤ n') :
    (uniform n : Sampler (Fp p)).Le (uniform n') :=
  .retry (.refl _) hn

/-! ### Ranges -/

theorem lt_of_word_eq_some {n : ℕ} {s' : WordStream} (h : word s = some (n, s')) :
    n < wordBase := by
  obtain ⟨rfl, -⟩ := Prod.mk.inj (Option.some.inj h)
  exact UInt64.toNat_lt _

/-- The size of a range fits into a word, unless the range is that of all words. -/
theorem toNat_size_eq_or {low high : UInt64} (hle : low ≤ high) :
    (high - low + 1).toNat = high.toNat - low.toNat + 1 ∨
      (high - low + 1).toNat = 0 ∧ high.toNat - low.toNat + 1 = wordBase := by
  have hsize : (high - low + 1).toNat = (high.toNat - low.toNat + 1) % wordBase := by
    rw [UInt64.toNat_add, UInt64.toNat_sub_of_le _ _ hle]
    rfl
  have hhigh : high.toNat < wordBase := high.toNat_lt
  rcases Nat.lt_or_ge (high.toNat - low.toNat + 1) wordBase with h | h
  · exact .inl (hsize.trans (Nat.mod_eq_of_lt h))
  · have hall : high.toNat - low.toNat + 1 = wordBase := by omega
    rw [hall, Nat.mod_self] at hsize
    exact .inr ⟨hsize, hall⟩

/-- **An integer that is drawn from a range lies in it.** -/
theorem mem_of_between_eq_some {attempts n : ℕ} {low high : UInt64} (hle : low ≤ high)
    {s' : WordStream} (h : between attempts low high s = some (n, s')) :
    low.toNat ≤ n ∧ n ≤ high.toNat := by
  have hle' : low.toNat ≤ high.toNat := UInt64.le_iff_toNat_le.1 hle
  rw [between] at h
  rcases toNat_size_eq_or hle with hsize | ⟨hsize, hall⟩
  · rw [hsize, if_neg (Nat.succ_ne_zero _)] at h
    obtain ⟨s₀, haccept⟩ := exists_of_retry_eq_some h
    obtain ⟨w, s₁, hw, hpure⟩ := bind_eq_some_iff.1 haccept
    have hvalue := (Prod.mk.inj (pure_eq_some_iff.1 hpure)).1
    split_ifs at hvalue
    obtain rfl := Option.some.inj hvalue
    -- the high half of the product is below the size
    have hhalf : w * (high.toNat - low.toNat + 1) / wordBase < high.toNat - low.toNat + 1 :=
      Nat.div_lt_of_lt_mul (Nat.mul_lt_mul_of_pos_right (lt_of_word_eq_some hw) (by omega))
    generalize w * (high.toNat - low.toNat + 1) / wordBase = half at hhalf
    omega
  · rw [hsize, if_pos rfl] at h
    have hword := lt_of_word_eq_some h
    have hhigh : high.toNat < wordBase := high.toNat_lt
    omega

end SuccinctProof.Sampler
