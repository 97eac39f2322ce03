import Mathlib.Data.List.Basic
import Mathlib.Data.List.Nodup
import SuccinctProof.Netlist.Witness
import SuccinctProof.Proofs.Field

/-!
# Sweeping until nothing changes

When every waiting gate has its own target, and no target has a value yet (`Assignment.Ready`), no
value is ever overwritten. What sweeps achieve is then a relation between the assignment and the
waiting gates before and after (`Assignment.Progress`): values are only added, and a gate is either
still waiting, with its target still without a value, or settled, with its target having the result
of its operands. The relation holds of one sweep and composes, so it holds of any number of them.

A sweep that settles nothing changes nothing (`sweep_eq_self`). So as many sweeps as there are gates
reach a state in which no waiting gate has a result (`settle_spec`).
-/

namespace SuccinctProof.Assignment

variable {p : ℕ}

/-! ### Values -/

theorem value?_assign (v : Assignment p) {wire : ℕ} (hwire : wire < v.size) (x : Fp p) (i : ℕ) :
    (v.assign wire x).value? i = if i = wire then some x else v.value? i := by
  rw [assign, value?, value?, Array.getElem?_setIfInBounds]
  rcases eq_or_ne wire i with rfl | hne
  · rw [if_pos rfl, if_pos rfl, if_pos hwire, Option.join_some]
  · rw [if_neg hne, if_neg hne.symm]

@[simp] theorem size_assign (v : Assignment p) (wire : ℕ) (x : Fp p) :
    (v.assign wire x).size = v.size :=
  Array.size_setIfInBounds

/-- The second assignment has all values of the first. -/
def Le (v v' : Assignment p) : Prop :=
  ∀ i x, v.value? i = some x → v'.value? i = some x

theorem Le.refl (v : Assignment p) : v.Le v := fun _ _ h ↦ h

theorem Le.trans {v v' v'' : Assignment p} (h : v.Le v') (h' : v'.Le v'') : v.Le v'' :=
  fun i x hx ↦ h' i x (h i x hx)

theorem le_assign {v : Assignment p} {wire : ℕ} (hwire : wire < v.size)
    (hnone : v.value? wire = none) (x : Fp p) : v.Le (v.assign wire x) := by
  intro i y hy
  rw [value?_assign v hwire, if_neg, hy]
  rintro rfl
  rw [hnone] at hy
  exact nomatch hy

/-! ### Gates that wait -/

/-- Gates that can be solved in any order: each has its own target, which has no value yet. -/
structure Ready (v : Assignment p) (gates : List (PlacedGate p)) : Prop where
  /-- The targets are distinct. -/
  nodup : (gates.map (·.target.wire)).Nodup
  /-- The targets are wires. -/
  lt_size : ∀ g ∈ gates, g.target.wire < v.size
  /-- The targets have no value. -/
  none : ∀ g ∈ gates, v.value? g.target.wire = none

theorem Ready.tail {v : Assignment p} {g : PlacedGate p} {gates : List (PlacedGate p)}
    (h : v.Ready (g :: gates)) : v.Ready gates :=
  ⟨(List.nodup_cons.1 h.nodup).2, fun g' hg' ↦ h.lt_size g' (List.mem_cons_of_mem _ hg'),
    fun g' hg' ↦ h.none g' (List.mem_cons_of_mem _ hg')⟩

theorem Ready.target_ne {v : Assignment p} {g : PlacedGate p} {gates : List (PlacedGate p)}
    (h : v.Ready (g :: gates)) : ∀ g' ∈ gates, g'.target.wire ≠ g.target.wire := by
  intro g' hg' heq
  exact (List.nodup_cons.1 h.nodup).1 (List.mem_map.2 ⟨g', hg', heq⟩)

/-- Settling the first gate leaves the others ready. -/
theorem Ready.assign {v : Assignment p} {g : PlacedGate p} {gates : List (PlacedGate p)}
    (h : v.Ready (g :: gates)) (x : Fp p) : (v.assign g.target.wire x).Ready gates where
  nodup := h.tail.nodup
  lt_size g' hg' := by
    rw [size_assign]
    exact h.tail.lt_size g' hg'
  none g' hg' := by
    rw [value?_assign v (h.lt_size g List.mem_cons_self), if_neg (h.target_ne g' hg')]
    exact h.tail.none g' hg'

/-! ### Results -/

variable [Modulus p]

theorem operand?_mono {v v' : Assignment p} (h : v.Le v') {place : Place p} {x : Fp p}
    (hx : v.operand? place = some x) : v'.operand? place = some x := by
  obtain ⟨y, hy, rfl⟩ := Option.map_eq_some_iff.1 hx
  exact Option.map_eq_some_iff.2 ⟨y, h _ _ hy, rfl⟩

/-- A gate has a result when both of its operands have a value. -/
theorem result?_eq_some_iff {v : Assignment p} {g : PlacedGate p} {x : Fp p} :
    v.result? g = some x ↔ ∃ a b, v.operand? g.left = some a ∧ v.operand? g.right = some b ∧
      g.op.apply a b = x := by
  rw [result?]
  cases v.operand? g.left <;> cases v.operand? g.right <;> simp

theorem result?_mono {v v' : Assignment p} (h : v.Le v') {g : PlacedGate p} {x : Fp p}
    (hx : v.result? g = some x) : v'.result? g = some x := by
  obtain ⟨a, b, ha, hb, rfl⟩ := result?_eq_some_iff.1 hx
  exact result?_eq_some_iff.2 ⟨a, b, operand?_mono h ha, operand?_mono h hb, rfl⟩

/-- The target of a gate has the result of its operands. -/
def Settled (v : Assignment p) (g : PlacedGate p) : Prop :=
  ∃ x, v.result? g = some x ∧ v.value? g.target.wire = some x

theorem Settled.mono {v v' : Assignment p} (h : v.Le v') {g : PlacedGate p} (hg : v.Settled g) :
    v'.Settled g := by
  obtain ⟨x, hresult, hvalue⟩ := hg
  exact ⟨x, result?_mono h hresult, h _ _ hvalue⟩

/-- What sweeps over some gates can do: settle gates, and leave the others waiting. -/
structure Progress (v : Assignment p) (gates : List (PlacedGate p)) (v' : Assignment p)
    (waiting : List (PlacedGate p)) : Prop where
  /-- There are as many wires as before. -/
  size_eq : v'.size = v.size
  /-- The waiting gates stay in order. -/
  sublist : waiting.Sublist gates
  /-- No value is overwritten. -/
  le : v.Le v'
  /-- A gate that does not wait is settled. -/
  settled : ∀ g ∈ gates, g ∈ waiting ∨ v'.Settled g
  /-- The target of a waiting gate has no value. -/
  unsettled : ∀ g ∈ waiting, v'.value? g.target.wire = none
  /-- A wire that is no target keeps its value. -/
  frame : ∀ i, (∀ g ∈ gates, g.target.wire ≠ i) → v'.value? i = v.value? i

namespace Progress

variable {v v' v'' : Assignment p} {gates waiting waiting' : List (PlacedGate p)}

protected theorem refl (h : v.Ready gates) : Progress v gates v gates :=
  ⟨rfl, .refl _, .refl v, fun _ hg ↦ .inl hg, h.none, fun _ _ ↦ rfl⟩

/-- The gates left waiting are ready for the next sweep. -/
theorem ready (h : Progress v gates v' waiting) (hready : v.Ready gates) : v'.Ready waiting where
  nodup := hready.nodup.sublist (h.sublist.map _)
  lt_size g hg := h.size_eq ▸ hready.lt_size g (h.sublist.subset hg)
  none := h.unsettled

protected theorem trans (h : Progress v gates v' waiting) (h' : Progress v' waiting v'' waiting') :
    Progress v gates v'' waiting' where
  size_eq := h'.size_eq.trans h.size_eq
  sublist := h'.sublist.trans h.sublist
  le := h.le.trans h'.le
  settled g hg := (h.settled g hg).elim (h'.settled g) fun hs ↦ .inr (hs.mono h'.le)
  unsettled := h'.unsettled
  frame i hi := (h'.frame i fun g hg ↦ hi g (h.sublist.subset hg)).trans (h.frame i hi)

end Progress

/-! ### One sweep -/

theorem sweep_cons_of_some {v : Assignment p} {g : PlacedGate p} {x : Fp p}
    (h : v.result? g = some x) (gates : List (PlacedGate p)) :
    sweep v (g :: gates) = sweep (v.assign g.target.wire x) gates := by
  rw [sweep, h]

theorem sweep_cons_of_none {v : Assignment p} {g : PlacedGate p} (h : v.result? g = none)
    (gates : List (PlacedGate p)) :
    sweep v (g :: gates) = ((sweep v gates).1, g :: (sweep v gates).2) := by
  rw [sweep, h]

/-- **One sweep makes progress.** Induction on the gates, in the order in which they are visited. -/
theorem progress_sweep {v : Assignment p} {gates : List (PlacedGate p)} (h : v.Ready gates) :
    Progress v gates (sweep v gates).1 (sweep v gates).2 := by
  induction gates generalizing v with
  | nil => exact .refl h
  | cons g gates ih =>
    have hlt := h.lt_size g List.mem_cons_self
    cases hx : v.result? g with
    | some x =>
      rw [sweep_cons_of_some hx]
      have hle := le_assign hlt (h.none g List.mem_cons_self) x
      obtain ⟨hsize, hsub, hle', hsettled, hunsettled, hframe⟩ := ih (h.assign x)
      refine ⟨by rw [hsize, size_assign], hsub.cons _, hle.trans hle', ?_, hunsettled, ?_⟩
      · intro g' hg'
        rcases List.mem_cons.1 hg' with rfl | hg'
        -- its operands keep their values, and so does its target
        · refine .inr ⟨x, result?_mono (hle.trans hle') hx, hle' _ _ ?_⟩
          rw [value?_assign v hlt, if_pos rfl]
        · exact hsettled g' hg'
      · intro i hi
        rw [hframe i fun g' hg' ↦ hi g' (List.mem_cons_of_mem _ hg'), value?_assign v hlt,
          if_neg (hi g List.mem_cons_self).symm]
    | none =>
      rw [sweep_cons_of_none hx]
      obtain ⟨hsize, hsub, hle, hsettled, hunsettled, hframe⟩ := ih h.tail
      refine ⟨hsize, hsub.cons_cons _, hle, ?_, ?_, ?_⟩
      · intro g' hg'
        rcases List.mem_cons.1 hg' with rfl | hg'
        · exact .inl List.mem_cons_self
        · exact (hsettled g' hg').imp_left (List.mem_cons_of_mem _)
      · intro g' hg'
        rcases List.mem_cons.1 hg' with rfl | hg'
        -- no other gate has its target
        · exact (hframe _ h.target_ne).trans (h.none _ List.mem_cons_self)
        · exact hunsettled g' hg'
      · exact fun i hi ↦ hframe i fun g' hg' ↦ hi g' (List.mem_cons_of_mem _ hg')

theorem length_sweep_le (v : Assignment p) (gates : List (PlacedGate p)) :
    (sweep v gates).2.length ≤ gates.length := by
  induction gates generalizing v with
  | nil => exact Nat.le_refl 0
  | cons g gates ih =>
    cases hx : v.result? g with
    | some x =>
      rw [sweep_cons_of_some hx]
      exact (ih _).trans (Nat.le_succ _)
    | none =>
      rw [sweep_cons_of_none hx]
      exact Nat.succ_le_succ (ih v)

/-- **A sweep that settles nothing changes nothing**, and found no gate with a result. -/
theorem sweep_eq_self {v : Assignment p} {gates : List (PlacedGate p)}
    (h : (sweep v gates).2.length = gates.length) :
    sweep v gates = (v, gates) ∧ ∀ g ∈ gates, v.result? g = none := by
  induction gates generalizing v with
  | nil => exact ⟨rfl, by simp⟩
  | cons g gates ih =>
    cases hx : v.result? g with
    | some x =>
      -- this gate is settled, so fewer gates wait than before
      rw [sweep_cons_of_some hx, List.length_cons] at h
      have := length_sweep_le (v.assign g.target.wire x) gates
      omega
    | none =>
      rw [sweep_cons_of_none hx] at h ⊢
      obtain ⟨hsweep, hnone⟩ := ih (Nat.succ.inj h)
      rw [hsweep, List.forall_mem_cons]
      exact ⟨rfl, hx, hnone⟩

/-! ### All sweeps -/

theorem sweeps_eq_self {v : Assignment p} {gates : List (PlacedGate p)}
    (h : sweep v gates = (v, gates)) (n : ℕ) : sweeps n v gates = (v, gates) := by
  induction n with
  | zero => rfl
  | succ n ih =>
    rw [sweeps, h]
    exact ih

/-- **Enough sweeps make progress until no waiting gate has a result.** Every sweep but the last
shortens the list of waiting gates, or else nothing changes any more. -/
theorem sweeps_spec {n : ℕ} {v : Assignment p} {gates : List (PlacedGate p)} (h : v.Ready gates)
    (hn : gates.length ≤ n) :
    Progress v gates (sweeps n v gates).1 (sweeps n v gates).2 ∧
      ∀ g ∈ (sweeps n v gates).2, (sweeps n v gates).1.result? g = none := by
  induction n generalizing v gates with
  | zero =>
    obtain rfl := List.length_eq_zero_iff.1 (Nat.le_zero.1 hn)
    exact ⟨.refl h, by simp [sweeps]⟩
  | succ n ih =>
    have hstep := progress_sweep h
    rcases (length_sweep_le v gates).eq_or_lt with heq | hlt
    · obtain ⟨hself, hnone⟩ := sweep_eq_self heq
      rw [sweeps_eq_self hself]
      exact ⟨.refl h, hnone⟩
    · obtain ⟨hprogress, hnone⟩ := ih (hstep.ready h) (by omega)
      exact ⟨hstep.trans hprogress, hnone⟩

theorem settle_spec {v : Assignment p} {gates : List (PlacedGate p)} (h : v.Ready gates) :
    Progress v gates (v.settle gates).1 (v.settle gates).2 ∧
      ∀ g ∈ (v.settle gates).2, (v.settle gates).1.result? g = none :=
  sweeps_spec h le_rfl

end SuccinctProof.Assignment
