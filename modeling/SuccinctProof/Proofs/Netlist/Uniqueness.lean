import SuccinctProof.Proofs.Netlist.Rows

/-!
# The witness is the only solution

The gates of a netlist can be read in two ways: as steps that give their targets values, and as
equations between the values of all wires. A vector that fits every gate as an equation agrees with
the solver at any time (`Assignment.Agrees`): whatever value the solver has found is the value that
the vector has on that wire, since the target of a gate is determined by its operands. This is kept
by one sweep (`agrees_sweep`) and so by any number of them (`agrees_sweeps`).

When the solver ends with a value for every wire, no room is left, and the vector is the computed
witness. So the constraint system of a circuit has exactly one solution for inputs on which the
solver succeeds (`Circuit.satisfied_iff_eq_witness`). Nothing is assumed of the order of the gates,
and a statement may refer to a wire that is only defined by a later one.
-/

namespace SuccinctProof

variable {p : ℕ} [Modulus p]

/-- On the target of the gate, the vector has the result of the gate's operands. -/
def PlacedGate.HasResult (w : List (Fp p)) (g : PlacedGate p) : Prop :=
  w[g.target.wire]? = some (g.op.apply (g.left.value w) (g.right.value w))

/-- A gate that fits has its result, when its target is a wire with coefficient one. -/
theorem PlacedGate.Holds.hasResult {w : List (Fp p)} {g : PlacedGate p} (h : g.Holds w)
    (hcoeff : g.target.coeff = 1) (hlt : g.target.wire < w.length) : g.HasResult w := by
  rw [HasResult, show g.op.apply (g.left.value w) (g.right.value w) = g.target.value w from h,
    Place.value, hcoeff, one_mul, List.getD_eq_getElem _ _ hlt, List.getElem?_eq_getElem hlt]

namespace Assignment

/-- Every value of the assignment is the value that the vector has on the same wire. -/
def Agrees (v : Assignment p) (w : List (Fp p)) : Prop :=
  ∀ i y, v.value? i = some y → w[i]? = some y

variable {v : Assignment p} {w : List (Fp p)} {gates : List (PlacedGate p)}

theorem Agrees.value_eq (h : v.Agrees w) {place : Place p} {y : Fp p}
    (hy : v.operand? place = some y) : place.value w = y := by
  obtain ⟨z, hz, rfl⟩ := Option.map_eq_some_iff.1 hy
  rw [Place.value, List.getD_eq_getElem?_getD, h _ _ hz, Option.getD_some]

/-- **Settling a gate that the vector fits keeps the agreement.** -/
theorem Agrees.assign (h : v.Agrees w) {g : PlacedGate p} {y : Fp p}
    (hlt : g.target.wire < v.size) (hresult : v.result? g = some y)
    (hg : g.HasResult w) : (v.assign g.target.wire y).Agrees w := by
  obtain ⟨a, b, ha, hb, rfl⟩ := result?_eq_some_iff.1 hresult
  intro i z hz
  rw [value?_assign v hlt] at hz
  split at hz
  · next hi =>
    rw [hi, show w[g.target.wire]? = _ from hg, h.value_eq ha, h.value_eq hb]
    exact hz
  · exact h i z hz

/-- **One sweep keeps the agreement.** Induction on the gates, in the order in which they are
visited. -/
theorem agrees_sweep (hready : v.Ready gates) (h : v.Agrees w)
    (hgates : ∀ g ∈ gates, g.HasResult w) : (sweep v gates).1.Agrees w := by
  induction gates generalizing v with
  | nil => exact h
  | cons g gates ih =>
    rw [List.forall_mem_cons] at hgates
    cases hx : v.result? g with
    | some x =>
      rw [sweep_cons_of_some hx]
      have hlt := hready.lt_size g List.mem_cons_self
      exact ih (hready.assign x) (h.assign hlt hx hgates.1) hgates.2
    | none =>
      rw [sweep_cons_of_none hx]
      exact ih hready.tail h hgates.2

/-- Any number of sweeps keeps the agreement: the gates that still wait are some of the gates. -/
theorem agrees_sweeps (k : ℕ) (hready : v.Ready gates) (h : v.Agrees w)
    (hgates : ∀ g ∈ gates, g.HasResult w) : (sweeps k v gates).1.Agrees w := by
  induction k generalizing v gates with
  | zero => exact h
  | succ k ih =>
    have hstep := progress_sweep hready
    exact ih (hstep.ready hready) (agrees_sweep hready h hgates) fun g hg ↦
      hgates g (hstep.sublist.subset hg)

end Assignment

namespace Netlist

variable {n : Netlist} {x w : List (Fp p)}

/-- Before any sweep, the assignment agrees with every vector that starts with the constant one and
the inputs. -/
theorem agrees_initialAssignment (hlt : n.numInputs < n.numWires) (hx : x.length = n.numInputs)
    (hw : w.take (n.numInputs + 1) = 1 :: x) : (n.initialAssignment x).Agrees w := by
  intro i y hy
  rw [value?_initialAssignment hlt hx, ← hw] at hy
  rcases Nat.lt_or_ge i (n.numInputs + 1) with hi | hi
  · rwa [List.getElem?_take_of_lt hi] at hy
  · rw [List.getElem?_take_eq_none hi] at hy
    exact nomatch hy

/-- **Every solution is the computed witness**, when there is one. -/
theorem SingleAssignment.eq_of_isSolution (h : n.SingleAssignment) (hw : n.witness x = .ok w)
    {w' : List (Fp p)} (hw' : n.IsSolution x w') : w' = w := by
  obtain ⟨hx, -, gs, v, hgs, hsettle, hv⟩ := witness_eq_ok_iff.1 hw
  obtain ⟨gs', hgs', hholds⟩ := hw'.holds
  obtain rfl := Except.ok.inj (hgs.symm.trans hgs')
  have hagrees : ((n.initialAssignment x).settle gs).1.Agrees w' := by
    refine Assignment.agrees_sweeps _ (h.ready_initialAssignment hx hgs)
      (agrees_initialAssignment h.inputs_lt hx hw'.take_eq) fun g hg ↦ ?_
    obtain ⟨-, hlt, hcoeff⟩ := h.target_of_mem hgs hg
    exact (hholds g hg).hasResult hcoeff (hw'.length_eq ▸ hlt)
  rw [hsettle] at hagrees
  -- the assignment has a value for every wire, so the vectors cannot differ in any
  have hlength : w'.length = w.length :=
    hw'.length_eq.trans (h.isSolution_of_witness hw).length_eq.symm
  refine List.ext_getElem hlength fun i hi' hi ↦ ?_
  have hvalue : v.value? i = some w[i] := by
    rw [value?_of_toList_eq hv, List.getElem?_eq_getElem hi]
  have := hagrees i _ hvalue
  rwa [List.getElem?_eq_getElem hi', Option.some.injEq] at this

end Netlist

/-- **The computed witness is the unique solution.** For a circuit that is accepted and inputs for
which the solver finds a witness, the constraint system exists, and a vector that starts with the
constant one and the inputs satisfies every constraint exactly when it is the witness. -/
theorem Circuit.satisfied_iff_eq_witness {c : Circuit} {n : Netlist}
    (hn : Netlist.ofCircuit c = .ok n) {x w : List (Fp p)} (hw : n.witness x = .ok w) :
    ∃ m, RankOneSystem.ofNetlist n = .ok m ∧ m.numConstraints = n.numConstraints ∧
      ∀ w' : List (Fp p), w'.take (n.numInputs + 1) = 1 :: x ∧ m.firstViolated w' = .ok none ↔
        w' = w := by
  have hsingle := (Netlist.isFlattening_of_ofCircuit hn).singleAssignment
  have hsolution := hsingle.isSolution_of_witness hw
  obtain ⟨m, hm, hsystem, -⟩ := hsolution.exists_system
  refine ⟨m, hm, hsystem.numConstraints_eq, fun w' ↦ ?_⟩
  rw [← Netlist.isSolution_iff hm]
  constructor
  · exact hsingle.eq_of_isSolution hw
  · rintro rfl
    exact hsolution

/-- A circuit whose first statement reads a wire that the second one defines. -/
def forwardReference : Circuit where
  inputs := ["x"]
  body := [.assign "y" (.binary .add (.var "z") (.lit 1)),
    .assign "z" (.binary .mul (.var "x") (.var "x")),
    .ret (.binary .mul (.var "y") (.var "y"))]

theorem forwardReference_satisfied : ∃ n, Netlist.ofCircuit forwardReference = .ok n ∧
    n.witness ([3] : List (Fp 101)) = .ok [1, 3, 10, 9, 100] ∧
    ∃ m, RankOneSystem.ofNetlist n = .ok m ∧ m.numConstraints = n.numConstraints ∧
      ∀ w' : List (Fp 101), w'.take (n.numInputs + 1) = [1, 3] ∧ m.firstViolated w' = .ok none ↔
        w' = [1, 3, 10, 9, 100] :=
  ⟨_, rfl, by decide +kernel,
    Circuit.satisfied_iff_eq_witness (c := forwardReference) rfl (by decide +kernel)⟩

end SuccinctProof
