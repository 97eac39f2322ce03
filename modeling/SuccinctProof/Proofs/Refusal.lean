import Mathlib.Data.List.Forall2
import SuccinctProof.Error

/-!
# Operations that may refuse

A computation of several steps is refused as soon as one step is (`bind_eq_error_iff`). Read
backwards: when it gave a result, every check passed (`ite_throw_eq_ok_iff`) and every step gave one
(`bind_eq_ok_iff`, `mapM_eq_ok_iff`). Read forwards: steps whose results are known can be put
together (`mapM_eq_ok`).
-/

namespace SuccinctProof

variable {α β ε : Type}

/-- **A result of two steps is a result of the first and one of the second.** -/
theorem bind_eq_ok_iff {x : Except ε α} {f : α → Except ε β} {b : β} :
    x >>= f = .ok b ↔ ∃ a, x = .ok a ∧ f a = .ok b := by
  cases x with
  | error e => exact ⟨fun h ↦ (nomatch h), fun ⟨_, h, _⟩ ↦ (nomatch h)⟩
  | ok a => exact ⟨fun h ↦ ⟨a, rfl, h⟩, fun ⟨_, ha, h⟩ ↦ Except.ok.inj ha ▸ h⟩

/-- **Two steps are refused when one of them is.** -/
theorem bind_eq_error_iff {x : Except ε α} {f : α → Except ε β} {e : ε} :
    x >>= f = .error e ↔ x = .error e ∨ ∃ a, x = .ok a ∧ f a = .error e := by
  cases x with
  | error e' =>
    constructor
    · intro h
      exact .inl (congrArg Except.error (Except.error.inj h))
    · rintro (h | ⟨_, h, _⟩)
      · exact congrArg Except.error (Except.error.inj h)
      · exact nomatch h
  | ok a =>
    constructor
    · intro h
      exact .inr ⟨a, rfl, h⟩
    · rintro (h | ⟨_, ha, h⟩)
      · exact nomatch h
      · exact Except.ok.inj ha ▸ h

/-- A result that was only rewritten comes from a result. -/
theorem exists_of_map_eq_ok {f : α → β} {x : Except ε α} {b : β} (h : x.map f = .ok b) :
    ∃ a, x = .ok a ∧ f a = b := by
  cases x with
  | error e => exact nomatch h
  | ok a => exact ⟨a, rfl, Except.ok.inj h⟩

/-- **A result behind a check is a result for which the check passed.** The steps `f` after the
check are those that a refusal skips. -/
theorem ite_throw_eq_ok_iff {c : Prop} [Decidable c] {e : ε} {f : α → Except ε β} {x : Except ε β}
    {b : β} : (if c then throw e >>= f else x) = .ok b ↔ ¬ c ∧ x = .ok b := by
  by_cases hc : c
  · rw [if_pos hc]
    exact ⟨fun h ↦ (nomatch h), fun h ↦ absurd hc h.1⟩
  · rw [if_neg hc]
    exact ⟨fun h ↦ ⟨hc, h⟩, fun h ↦ h.2⟩

theorem pure_eq_ok_iff {a b : α} : (pure a : Except ε α) = .ok b ↔ a = b :=
  ⟨Except.ok.inj, congrArg Except.ok⟩

@[simp] theorem ok_bind (a : α) (f : α → Except ε β) : Except.ok a >>= f = f a := rfl

/-- A list of steps gives the results of its steps. -/
theorem mapM_eq_ok_iff {f : α → Except ε β} {as : List α} {bs : List β} :
    as.mapM f = .ok bs ↔ List.Forall₂ (fun a b ↦ f a = .ok b) as bs := by
  induction as generalizing bs with
  | nil =>
    rw [List.mapM_nil]
    exact ⟨fun h ↦ Except.ok.inj h ▸ .nil, fun h ↦ by cases h; rfl⟩
  | cons a as ih =>
    rw [List.mapM_cons, bind_eq_ok_iff]
    constructor
    · rintro ⟨b, hb, h⟩
      obtain ⟨bs', hbs', h⟩ := bind_eq_ok_iff.1 h
      exact Except.ok.inj h ▸ .cons hb (ih.1 hbs')
    · rintro (_ | ⟨hb, hbs⟩)
      exact ⟨_, hb, bind_eq_ok_iff.2 ⟨_, ih.2 hbs, rfl⟩⟩

/-- When each step is known to give a result, so does the list. -/
theorem mapM_eq_ok {f : α → Except ε β} {g : α → β} {as : List α} (h : ∀ a ∈ as, f a = .ok (g a)) :
    as.mapM f = .ok (as.map g) := by
  rw [mapM_eq_ok_iff, List.forall₂_map_right_iff, List.forall₂_same]
  exact h

/-- When each step is a function behind a condition, the list is the list of values, and refused
unless all conditions hold. -/
theorem mapM_eq_ok_iff_forall {f : α → Except ε β} {P : α → Prop} {g : α → β} {as : List α}
    {bs : List β} (h : ∀ a b, f a = .ok b ↔ P a ∧ g a = b) :
    as.mapM f = .ok bs ↔ (∀ a ∈ as, P a) ∧ as.map g = bs := by
  simp only [mapM_eq_ok_iff, h, List.forall₂_and_left]
  rw [← List.forall₂_map_left_iff, List.forall₂_eq_eq_eq]

/-- Two lists of steps that give the same results step by step give the same results. -/
theorem mapM_eq_ok_iff_of_forall₂ {γ : Type} {f : α → Except ε β} {g : γ → Except ε β}
    {as : List α} {cs : List γ} {bs : List β}
    (h : List.Forall₂ (fun a c ↦ ∀ b, f a = .ok b ↔ g c = .ok b) as cs) :
    as.mapM f = .ok bs ↔ cs.mapM g = .ok bs := by
  induction h generalizing bs with
  | nil => rfl
  | cons hac _ ih => simp only [List.mapM_cons, bind_eq_ok_iff, hac, ih]

/-- Each entry of the list has its result among the results. -/
theorem exists_of_mapM_eq_ok {f : α → Except ε β} {as : List α} {bs : List β}
    (h : as.mapM f = .ok bs) {a : α} (ha : a ∈ as) : ∃ b ∈ bs, f a = .ok b := by
  have hrel := mapM_eq_ok_iff.1 h
  obtain ⟨i, hi, rfl⟩ := List.getElem_of_mem ha
  have hi' : i < bs.length := hrel.length_eq ▸ hi
  exact ⟨bs[i], List.getElem_mem hi', hrel.get hi hi'⟩

/-- Each of the results is the result of an entry. -/
theorem exists_of_mem_mapM {f : α → Except ε β} {as : List α} {bs : List β}
    (h : as.mapM f = .ok bs) {b : β} (hb : b ∈ bs) : ∃ a ∈ as, f a = .ok b := by
  have hrel := mapM_eq_ok_iff.1 h
  obtain ⟨i, hi, rfl⟩ := List.getElem_of_mem hb
  have hi' : i < as.length := hrel.length_eq ▸ hi
  exact ⟨as[i], List.getElem_mem hi', hrel.get hi' hi⟩

/-- The refusal of a list of steps is the refusal of one of them. -/
theorem exists_of_mapM_eq_error {f : α → Except ε β} {as : List α} {e : ε}
    (h : as.mapM f = .error e) : ∃ a ∈ as, f a = .error e := by
  induction as with
  | nil => exact nomatch h
  | cons a as ih =>
    rw [List.mapM_cons] at h
    rcases bind_eq_error_iff.1 h with ha | ⟨b, -, h⟩
    · exact ⟨a, List.mem_cons_self, ha⟩
    rcases bind_eq_error_iff.1 h with has | ⟨bs, -, h⟩
    · obtain ⟨a', hmem, ha'⟩ := ih has
      exact ⟨a', List.mem_cons_of_mem _ hmem, ha'⟩
    · exact nomatch h

/-- When every entry has a result, so does the list. -/
theorem exists_mapM_eq_ok {f : α → Except ε β} {as : List α} (h : ∀ a ∈ as, ∃ b, f a = .ok b) :
    ∃ bs, as.mapM f = .ok bs := by
  induction as with
  | nil => exact ⟨[], rfl⟩
  | cons a as ih =>
    obtain ⟨b, hb⟩ := h a List.mem_cons_self
    obtain ⟨bs, hbs⟩ := ih fun a' ha' ↦ h a' (List.mem_cons_of_mem _ ha')
    exact ⟨b :: bs, by rw [List.mapM_cons, hb, hbs]; rfl⟩

end SuccinctProof
