import Mathlib.Order.WellFoundedSet
import SuccinctProof.Proofs.Netlist.Uniqueness

/-!
# The order of the gates does not matter

A sweep visits the gates in order, and what it settles depends on that order. What is settled in
the end does not. Both the solutions of a netlist (`isSolution_withGates`) and the wires that a gate
reads (`Netlist.Reads`) are given by the gates as a set. A witness is the only solution, and whether
there is one can be said in terms of what reads what (`SingleAssignment.exists_witness_iff`): there
is, unless some wire is needed for its own value.

That condition is met in two halves. On a cycle no wire ever gets a value, since the gate that would
give it one waits for another wire of the cycle (`value?_sweeps_eq_none`). And when gates are left
waiting, each waits for the target of another one that is left waiting, so that among finitely many
a cycle is found (`exists_transGen_self`).

`Assignment.Passes` is the loop over sweeps as one would write it down, which goes on as long as it
makes progress. It ends after at most as many sweeps with progress as there are gates, in the state
that a fixed number of sweeps reaches (`exists_passes_iff`).
-/

namespace SuccinctProof

variable {p : ℕ} [Modulus p]

namespace Assignment

/-! ### The loop -/

/-- The loop over sweeps, from an assignment and waiting gates to what it ends with. The number
counts the sweeps that settled a gate. -/
inductive Passes : Assignment p → List (PlacedGate p) → ℕ →
    Assignment p × List (PlacedGate p) → Prop
  /-- No gate waits. -/
  | done {v : Assignment p} : Passes v [] 0 (v, [])
  /-- Gates wait, and a sweep settles none of them. -/
  | stuck {v : Assignment p} {gates : List (PlacedGate p)} (hne : gates ≠ [])
      (h : (sweep v gates).2.length = gates.length) : Passes v gates 0 (sweep v gates)
  /-- A sweep settles a gate, and the loop goes on with those still waiting. -/
  | pass {v : Assignment p} {gates : List (PlacedGate p)} {k : ℕ}
      {r : Assignment p × List (PlacedGate p)} (h : (sweep v gates).2.length < gates.length)
      (hrest : Passes (sweep v gates).1 (sweep v gates).2 k r) : Passes v gates (k + 1) r

/-- The loop ends in one way. -/
theorem Passes.unique {v : Assignment p} {gates : List (PlacedGate p)} {k k' : ℕ}
    {r r' : Assignment p × List (PlacedGate p)} (h : Passes v gates k r)
    (h' : Passes v gates k' r') : k = k' ∧ r = r' := by
  induction h generalizing k' r' with
  | done =>
    cases h' with
    | done => exact ⟨rfl, rfl⟩
    | stuck hne h' => exact absurd rfl hne
    | pass h' => exact absurd h' (Nat.not_lt_zero _)
  | stuck hne h =>
    cases h' with
    | done => exact absurd rfl hne
    | stuck hne' h' => exact ⟨rfl, rfl⟩
    | pass h' => exact absurd h h'.ne
  | pass h hrest ih =>
    cases h' with
    | done => exact absurd h (Nat.not_lt_zero _)
    | stuck hne h' => exact absurd h' h.ne
    | pass h' hrest' => exact (ih hrest').imp_left (congrArg (· + 1))

/-- **The loop ends**, after no more sweeps with progress than there are gates. It ends where a
fixed number of sweeps does, if there are at least as many of these as there are gates. -/
theorem exists_passes {n : ℕ} {v : Assignment p} {gates : List (PlacedGate p)}
    (hn : gates.length ≤ n) : ∃ k ≤ gates.length, Passes v gates k (sweeps n v gates) := by
  induction n generalizing v gates with
  | zero =>
    obtain rfl := List.length_eq_zero_iff.1 (Nat.le_zero.1 hn)
    exact ⟨0, le_rfl, .done⟩
  | succ n ih =>
    rcases (length_sweep_le v gates).eq_or_lt with heq | hlt
    · refine ⟨0, Nat.zero_le _, ?_⟩
      rw [sweeps_eq_self (sweep_eq_self heq).1]
      rcases eq_or_ne gates [] with rfl | hne
      · exact .done
      · have hstuck := Passes.stuck hne heq
        rwa [(sweep_eq_self heq).1] at hstuck
    · have hrest : (sweep v gates).2.length ≤ n := by omega
      obtain ⟨k, hk, hpasses⟩ := @ih (sweep v gates).1 _ hrest
      exact ⟨k + 1, by omega, .pass hlt hpasses⟩

/-- **The loop ends in exactly one way**, in the settled state. -/
theorem exists_passes_iff (v : Assignment p) (gates : List (PlacedGate p)) :
    ∃ k ≤ gates.length, ∀ k' r, Passes v gates k' r ↔ k' = k ∧ r = v.settle gates := by
  obtain ⟨k, hk, hpasses⟩ := exists_passes (v := v) (le_refl gates.length)
  refine ⟨k, hk, fun k' r ↦ ⟨fun h ↦ h.unique hpasses, ?_⟩⟩
  rintro ⟨rfl, rfl⟩
  exact hpasses

/-! ### Wires that never get a value -/

variable {v : Assignment p} {gates : List (PlacedGate p)} {s : Set ℕ}

/-- A gate that reads a wire without a value has no result. -/
theorem result?_eq_none_iff {g : PlacedGate p} :
    v.result? g = none ↔ v.value? g.left.wire = none ∨ v.value? g.right.wire = none := by
  rw [result?, operand?, operand?]
  cases v.value? g.left.wire <;> cases v.value? g.right.wire <;> simp

/-- **One sweep gives no value to wires that wait for one another**: a gate with its target among
them reads one of them. -/
theorem value?_sweep_eq_none (hready : v.Ready gates) (hs : ∀ i ∈ s, v.value? i = none)
    (hreads : ∀ g ∈ gates, g.target.wire ∈ s → g.left.wire ∈ s ∨ g.right.wire ∈ s) :
    ∀ i ∈ s, (sweep v gates).1.value? i = none := by
  induction gates generalizing v with
  | nil => exact hs
  | cons g gates ih =>
    rw [List.forall_mem_cons] at hreads
    cases hx : v.result? g with
    | some x =>
      rw [sweep_cons_of_some hx]
      refine ih (hready.assign x) (fun i hi ↦ ?_) hreads.2
      rw [value?_assign v (hready.lt_size g List.mem_cons_self), if_neg, hs i hi]
      -- the gate has a result, so it reads none of the wires
      rintro rfl
      have hnone := result?_eq_none_iff.2 ((hreads.1 hi).imp (hs _) (hs _))
      rw [hx] at hnone
      exact nomatch hnone
    | none =>
      rw [sweep_cons_of_none hx]
      exact ih hready.tail hs hreads.2

/-- No number of sweeps does either. -/
theorem value?_sweeps_eq_none (k : ℕ) (hready : v.Ready gates) (hs : ∀ i ∈ s, v.value? i = none)
    (hreads : ∀ g ∈ gates, g.target.wire ∈ s → g.left.wire ∈ s ∨ g.right.wire ∈ s) :
    ∀ i ∈ s, (sweeps k v gates).1.value? i = none := by
  induction k generalizing v gates with
  | zero => exact hs
  | succ k ih =>
    have hstep := progress_sweep hready
    exact ih (hstep.ready hready) (value?_sweep_eq_none hready hs hreads) fun g hg ↦
      hreads g (hstep.sublist.subset hg)

end Assignment

/-! ### Cycles -/

/-- **Among finitely many things each of which is followed by another, one follows itself.** -/
theorem exists_transGen_self {α : Type} {r : α → α → Prop} {s : Set α} (hfin : s.Finite)
    (hne : s.Nonempty) (hnext : ∀ a ∈ s, ∃ b ∈ s, r a b) : ∃ a, Relation.TransGen r a a := by
  by_contra hcycle
  -- otherwise there is a last one
  have : IsStrictOrder α (Function.swap (Relation.TransGen r)) :=
    { irrefl := fun a ha ↦ hcycle ⟨a, ha⟩
      trans := fun _ _ _ hab hbc ↦ hbc.trans hab }
  have hwf := hfin.wellFoundedOn (r := Function.swap (Relation.TransGen r))
  obtain ⟨a, ha⟩ := hne
  refine hwf.induction (P := fun _ ↦ False) ha fun b hb ih ↦ ?_
  obtain ⟨c, hc, hbc⟩ := hnext b hb
  exact ih c hc (.single hbc)

namespace Netlist

variable {n : Netlist} {x w : List (Fp p)} {gs : List (PlacedGate p)}

/-- A gate that gives the wire `t` its value reads the wire `u`. -/
def Reads (n : Netlist) (t u : String) : Prop :=
  ∃ g ∈ n.gates, g.target = .wire t ∧ (g.left = .wire u ∨ g.right = .wire u)

/-- No wire is read, directly or not, for its own value. -/
def Acyclic (n : Netlist) : Prop := ∀ t, ¬ Relation.TransGen n.Reads t t

/-! ### When there is a witness -/

/-- The names of the wires that some gates give values. -/
def targetNames (n : Netlist) (gs : List (PlacedGate p)) : Set String :=
  {t | ∃ g ∈ gs, n.wires[g.target.wire]? = some t}

omit [Modulus p] in
theorem finite_targetNames (n : Netlist) (gs : List (PlacedGate p)) : (n.targetNames gs).Finite :=
  n.wires.finite_toSet.subset fun _ ⟨_, _, ht⟩ ↦ List.mem_of_getElem? ht

namespace SingleAssignment

/-- A gate with a place fills a named wire, and reads the places of its operands. -/
theorem exists_gate (h : n.SingleAssignment) (hgs : n.placedGates = .ok gs) {g : PlacedGate p}
    (hg : g ∈ gs) : ∃ g₀ ∈ n.gates, ∃ t, g₀.target = .wire t ∧
      n.wires[g.target.wire]? = some t ∧ n.place g₀.left = .ok g.left ∧
      n.place g₀.right = .ok g.right := by
  obtain ⟨g₀, hg₀, hplace⟩ := exists_of_mem_mapM hgs hg
  obtain ⟨hleft, hright, -⟩ := (placeGate_eq_ok_iff h.wires_ne_nil).1 hplace
  obtain ⟨t, -, ht⟩ := List.mem_map.1 (h.targets.subset (List.mem_map_of_mem hg₀))
  exact ⟨g₀, hg₀, t, ht.symm, (h.target_of_placeGate hplace ht.symm).1, hleft, hright⟩

/-- A wire that is computed from another one is the target of a gate. -/
theorem mem_targetNames_of_reads (h : n.SingleAssignment) (hgs : n.placedGates = .ok gs)
    {t u : String} (hreads : n.Reads t u) : t ∈ n.targetNames gs := by
  obtain ⟨g₀, hg₀, htarget, -⟩ := hreads
  obtain ⟨g, hg, hplace⟩ := exists_of_mapM_eq_ok hgs hg₀
  exact ⟨g, hg, (h.target_of_placeGate hplace htarget).1⟩

/-- The gate of a wire on a cycle reads a wire on the cycle, since no other gate has its target. -/
theorem exists_reads_of_transGen (h : n.SingleAssignment) {g : Gate} (hg : g ∈ n.gates)
    {t : String} (htarget : g.target = .wire t) (hcycle : Relation.TransGen n.Reads t t) :
    ∃ u, (g.left = .wire u ∨ g.right = .wire u) ∧ Relation.TransGen n.Reads u u := by
  obtain ⟨u, ⟨g', hg', htarget', hreads⟩, hrest⟩ := Relation.TransGen.head'_iff.1 hcycle
  obtain rfl := List.inj_on_of_nodup_map h.nodup_map_target hg hg' (htarget.trans htarget'.symm)
  exact ⟨u, hreads, .tail' hrest ⟨g, hg, htarget, hreads⟩⟩

/-- **With a witness there is no cycle**, since the wires on cycles never get values. -/
theorem acyclic_of_witness (h : n.SingleAssignment) (hw : n.witness x = .ok w) : n.Acyclic := by
  obtain ⟨hx, -, gs, v, hgs, hsettle, hv⟩ := witness_eq_ok_iff.1 hw
  have hready := h.ready_initialAssignment hx hgs
  -- the wires on cycles are targets, so they have no values before the first sweep
  have hgate : ∀ {t}, Relation.TransGen n.Reads t t → t ∈ n.targetNames gs := by
    intro t ht
    obtain ⟨_, hreads, -⟩ := Relation.TransGen.head'_iff.1 ht
    exact h.mem_targetNames_of_reads hgs hreads
  have hfirst : ∀ i ∈ {i | ∃ t, n.wires[i]? = some t ∧ Relation.TransGen n.Reads t t},
      (n.initialAssignment x).value? i = none := by
    rintro i ⟨t, hi, ht⟩
    obtain ⟨g, hg, hget⟩ := hgate ht
    have hlt := (List.getElem?_eq_some_iff.1 hi).1
    obtain rfl := (List.getElem?_inj hlt h.nodup).1 (hi.trans hget.symm)
    exact hready.none g hg
  have hlast := Assignment.value?_sweeps_eq_none gs.length hready hfirst ?_
  · -- but after the last one all wires have
    intro t ht
    obtain ⟨g, hg, hget⟩ := hgate ht
    have hnone := hlast _ ⟨t, hget, ht⟩
    rw [show Assignment.sweeps gs.length (n.initialAssignment x) gs = (v, []) from hsettle,
      value?_of_toList_eq hv, List.getElem?_eq_none_iff,
      (h.isSolution_of_witness hw).length_eq] at hnone
    exact absurd (h.target_of_mem hgs hg).2.1 (Nat.not_lt.2 hnone)
  · rintro g hg ⟨t, hi, ht⟩
    obtain ⟨g₀, hg₀, t', htarget, hi', hleft, hright⟩ := h.exists_gate hgs hg
    obtain rfl := Option.some.inj (hi'.symm.trans hi)
    obtain ⟨u, hu | hu, hcycle⟩ := h.exists_reads_of_transGen hg₀ htarget ht
    · rw [hu, place_wire_eq_ok_iff h.nodup] at hleft
      exact .inl ⟨u, hleft.1, hcycle⟩
    · rw [hu, place_wire_eq_ok_iff h.nodup] at hright
      exact .inr ⟨u, hright.1, hcycle⟩

/-- An operand that ends without a value names the target of a gate that is left waiting. -/
theorem exists_waiting_of_place (h : n.SingleAssignment) (hx : x.length = n.numInputs)
    (hgs : n.placedGates = .ok gs) {o : Operand} {place : Place p} (ho : n.place o = .ok place)
    (hnone : ((n.initialAssignment x).settle gs).1.value? place.wire = none) :
    ∃ u, o = .wire u ∧ u ∈ n.targetNames ((n.initialAssignment x).settle gs).2 := by
  cases o with
  | wire u =>
    rw [place_wire_eq_ok_iff h.nodup] at ho
    obtain ⟨g, hg, heq⟩ :=
      h.exists_waiting hx hgs (List.getElem?_eq_some_iff.1 ho.1).1 hnone
    exact ⟨u, rfl, g, hg, heq ▸ ho.1⟩
  | lit value =>
    -- literals stand on the first wire, which is no target
    obtain rfl := Except.ok.inj ho
    obtain ⟨g, hg, heq⟩ := h.exists_waiting hx hgs ((Nat.zero_le _).trans_lt h.inputs_lt) hnone
    obtain ⟨hprogress, -⟩ := Assignment.settle_spec (h.ready_initialAssignment hx hgs)
    have hlt := (h.target_of_mem hgs (hprogress.sublist.subset hg)).1
    rw [heq] at hlt
    exact absurd hlt (Nat.not_lt_zero _)

/-- **Without a cycle no gate is left waiting**: it would wait for the target of another one that is
left waiting. -/
theorem waiting_eq_nil_of_acyclic (h : n.SingleAssignment) (hx : x.length = n.numInputs)
    (hgs : n.placedGates = .ok gs) (hacyclic : n.Acyclic) :
    ((n.initialAssignment x).settle gs).2 = [] := by
  obtain ⟨hprogress, hstuck⟩ := Assignment.settle_spec (h.ready_initialAssignment hx hgs)
  by_contra hne
  have hnext : ∀ t ∈ n.targetNames ((n.initialAssignment x).settle gs).2,
      ∃ u ∈ n.targetNames ((n.initialAssignment x).settle gs).2, n.Reads t u := by
    rintro t ⟨g, hg, ht⟩
    obtain ⟨g₀, hg₀, t', htarget, ht', hleft, hright⟩ :=
      h.exists_gate hgs (hprogress.sublist.subset hg)
    obtain rfl := Option.some.inj (ht'.symm.trans ht)
    rcases Assignment.result?_eq_none_iff.1 (hstuck g hg) with hnone | hnone
    · obtain ⟨u, hu, hwaiting⟩ := h.exists_waiting_of_place hx hgs hleft hnone
      exact ⟨u, hwaiting, g₀, hg₀, htarget, .inl hu⟩
    · obtain ⟨u, hu, hwaiting⟩ := h.exists_waiting_of_place hx hgs hright hnone
      exact ⟨u, hwaiting, g₀, hg₀, htarget, .inr hu⟩
  obtain ⟨g, hg⟩ := List.exists_mem_of_ne_nil _ hne
  obtain ⟨-, -, t, -, ht, -, -⟩ := h.exists_gate hgs (hprogress.sublist.subset hg)
  obtain ⟨u, hu⟩ := exists_transGen_self (n.finite_targetNames _) ⟨t, g, hg, ht⟩ hnext
  exact hacyclic u hu

/-- **A netlist with single assignment has a witness exactly when its operands resolve and there is
no cycle**, for inputs of the right number. -/
theorem exists_witness_iff (h : n.SingleAssignment) :
    (∃ w, n.witness x = .ok w) ↔ x.length = n.numInputs ∧ n.Resolved ∧ n.Acyclic := by
  constructor
  · rintro ⟨w, hw⟩
    obtain ⟨hx, hne, gs, -, hgs, -⟩ := witness_eq_ok_iff.1 hw
    exact ⟨hx, (exists_placedGates_iff hne).1 ⟨gs, hgs⟩, h.acyclic_of_witness hw⟩
  · rintro ⟨hx, hresolved, hacyclic⟩
    obtain ⟨gs, hgs⟩ := (exists_placedGates_iff (p := p) h.wires_ne_nil).2 hresolved
    obtain ⟨w, hw, -⟩ := h.exists_witness hx hgs (h.waiting_eq_nil_of_acyclic hx hgs hacyclic)
    exact ⟨w, hw⟩

end SingleAssignment

/-! ### Any order -/

variable {gates : List Gate}

/-- The netlist with other gates over the same wires. -/
def withGates (n : Netlist) (gates : List Gate) : Netlist := { n with gates := gates }

theorem SingleAssignment.withGates (h : n.SingleAssignment) (hperm : gates.Perm n.gates) :
    (n.withGates gates).SingleAssignment :=
  ⟨h.nodup, h.inputs_lt, (hperm.map _).trans h.targets⟩

theorem reads_withGates (hperm : gates.Perm n.gates) : (n.withGates gates).Reads = n.Reads := by
  ext t u
  exact exists_congr fun g ↦ and_congr_left fun _ ↦ hperm.mem_iff

theorem resolved_withGates (hperm : gates.Perm n.gates) :
    (n.withGates gates).Resolved ↔ n.Resolved :=
  forall_congr' fun _ ↦ imp_congr_left hperm.mem_iff

/-- The values fit every gate exactly when each gate has a place and is fit there. -/
theorem exists_placedGates_and_holds_iff :
    (∃ gs, n.placedGates = .ok gs ∧ ∀ g ∈ gs, g.Holds w) ↔
      ∀ g ∈ n.gates, ∃ g', n.placeGate g = .ok g' ∧ g'.Holds w := by
  constructor
  · rintro ⟨gs, hgs, hholds⟩ g hg
    obtain ⟨g', hg', hplace⟩ := exists_of_mapM_eq_ok hgs hg
    exact ⟨g', hplace, hholds g' hg'⟩
  · intro h
    obtain ⟨gs, hgs⟩ := exists_mapM_eq_ok fun g hg ↦ (h g hg).imp fun _ hg' ↦ hg'.1
    refine ⟨gs, hgs, fun g' hg' ↦ ?_⟩
    obtain ⟨g, hg, hplace⟩ := exists_of_mem_mapM hgs hg'
    obtain ⟨g'', hplace', hholds⟩ := h g hg
    obtain rfl := Except.ok.inj (hplace.symm.trans hplace')
    exact hholds

/-- **The solutions of a netlist do not depend on the order of its gates.** -/
theorem isSolution_withGates (hperm : gates.Perm n.gates) (hw : n.IsSolution x w) :
    (n.withGates gates).IsSolution x w where
  length_eq := hw.length_eq
  take_eq := hw.take_eq
  holds := by
    rw [exists_placedGates_and_holds_iff]
    exact fun g hg ↦ exists_placedGates_and_holds_iff.1 hw.holds g (hperm.subset hg)

end Netlist

/-- **The witness does not depend on the order of the gates.** However the gates of an accepted
circuit are permuted, the same values are found, or none. They are found exactly when there is an
input for each input wire, every operand is a literal or the name of a wire, and no wire is read for
its own value. The loop over sweeps ends, in the settled state, after at most as many sweeps with
progress as there are gates. -/
theorem Circuit.witness_withGates {c : Circuit} {n : Netlist} (hn : Netlist.ofCircuit c = .ok n)
    {gates : List Gate} (hperm : gates.Perm n.gates) (x : List (Fp p)) :
    (∀ w, (n.withGates gates).witness x = .ok w ↔ n.witness x = .ok w) ∧
    ((∃ w, n.witness x = .ok w) ↔ x.length = n.numInputs ∧ n.Resolved ∧ n.Acyclic) ∧
    ∀ gs, (n.withGates gates).placedGates = .ok gs → ∃ k ≤ n.numConstraints, ∀ k' r,
      Assignment.Passes (n.initialAssignment x) gs k' r ↔
        k' = k ∧ r = (n.initialAssignment x).settle gs := by
  have hsingle := (Netlist.isFlattening_of_ofCircuit hn).singleAssignment
  have hsingle' := hsingle.withGates hperm
  have hexists : (∃ w, (n.withGates gates).witness x = .ok w) ↔ ∃ w, n.witness x = .ok w := by
    rw [hsingle.exists_witness_iff, hsingle'.exists_witness_iff, Netlist.resolved_withGates hperm,
      Netlist.Acyclic, Netlist.reads_withGates hperm]
    rfl
  have hle : ∀ {w}, n.witness x = .ok w → (n.withGates gates).witness x = .ok w := by
    intro w hw
    obtain ⟨w', hw'⟩ := hexists.2 ⟨w, hw⟩
    have hsolution := Netlist.isSolution_withGates hperm (hsingle.isSolution_of_witness hw)
    rw [hsingle'.eq_of_isSolution hw' hsolution, hw']
  refine ⟨fun w ↦ ⟨fun hw ↦ ?_, hle⟩, hsingle.exists_witness_iff, fun gs hgs ↦ ?_⟩
  · obtain ⟨w', hw'⟩ := hexists.1 ⟨w, hw⟩
    obtain rfl := Except.ok.inj ((hle hw').symm.trans hw)
    exact hw'
  · have hlength : gs.length = n.numConstraints :=
      (mapM_eq_ok_iff.1 hgs).length_eq.symm.trans hperm.length_eq
    exact hlength ▸ Assignment.exists_passes_iff _ gs

/-- A circuit whose two first statements read each other's wires. -/
def circularReference : Circuit where
  inputs := ["x"]
  body := [.assign "y" (.binary .add (.var "z") (.lit 1)),
    .assign "z" (.binary .mul (.var "x") (.var "y")), .ret (.var "y")]

/-- Reversed gates give the same values, unless they were given none. -/
theorem forwardReference_reversed :
    (∃ n, Netlist.ofCircuit forwardReference = .ok n ∧ n.gates.reverse.Perm n.gates ∧
      (n.withGates n.gates.reverse).witness ([3] : List (Fp 101)) = .ok [1, 3, 10, 9, 100] ∧
      n.Acyclic) ∧
    ∃ n, Netlist.ofCircuit circularReference = .ok n ∧ ¬ n.Acyclic ∧
      ¬ ∃ w, (n.withGates n.gates.reverse).witness ([3] : List (Fp 101)) = .ok w := by
  constructor
  · obtain ⟨hsame, hexists, -⟩ :=
      Circuit.witness_withGates (c := forwardReference) rfl (List.reverse_perm _) [(3 : Fp 101)]
    have hw := (hsame [1, 3, 10, 9, 100]).2 (by decide +kernel)
    exact ⟨_, rfl, List.reverse_perm _, hw, (hexists.1 ⟨_, (hsame _).1 hw⟩).2.2⟩
  · obtain ⟨hsame, hexists, -⟩ :=
      Circuit.witness_withGates (c := circularReference) rfl (List.reverse_perm _) [(3 : Fp 101)]
    have hcycle : ∀ n, Netlist.ofCircuit circularReference = .ok n → ¬ n.Acyclic := by
      intro n hn hacyclic
      obtain rfl := Except.ok.inj hn
      refine hacyclic "y" (.tail (b := "z") (.single ?_) ?_)
      · exact ⟨⟨.add, .wire "z", .lit 1, .wire "y"⟩, by decide, rfl, .inl rfl⟩
      · exact ⟨⟨.mul, .wire "x", .wire "y", .wire "z"⟩, by decide, rfl, .inr rfl⟩
    refine ⟨_, rfl, hcycle _ rfl, ?_⟩
    rintro ⟨w, hw⟩
    exact hcycle _ rfl (hexists.1 ⟨w, (hsame w).1 hw⟩).2.2

end SuccinctProof
