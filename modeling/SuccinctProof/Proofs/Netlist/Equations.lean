import SuccinctProof.Proofs.Netlist.Rows

/-!
# Constraints say what their gates say

A gate states an equation about the values of all wires, in which a name stands for the value of
the first wire that has it and a literal for itself (`Gate.Holds`). It needs no places, no
coefficients and no matrices.

`Netlist.exists_system_rowHolds_iff` says that the constraint system of a netlist is these
equations, one row for each, whatever else is wrong with the netlist: names may be repeated, a
target may be a literal, and the operands of a sum may fall on one wire. So the first constraint
that a vector violates is the first gate whose equation it breaks.
-/

namespace SuccinctProof

variable {p : ℕ} [Modulus p]

/-! ### Equations -/

/-- What an operand stands for, given the values of all wires: the value of the wire that it names,
or the literal. -/
def Operand.value (n : Netlist) (w : List (Fp p)) : Operand → Fp p
  | .wire name =>
    match n.wireIndex name with
    | .ok i => w.getD i 0
    | .error _ => 0
  | .lit k => Fp.ofInt k

/-- The equation of a gate, read at the values of all wires. -/
def Gate.Holds (n : Netlist) (w : List (Fp p)) (g : Gate) : Prop :=
  g.op.apply (g.left.value n w) (g.right.value n w) = g.target.value n w

instance (n : Netlist) (w : List (Fp p)) (g : Gate) : Decidable (g.Holds n w) :=
  inferInstanceAs (Decidable (_ = _))

variable {n : Netlist} {w : List (Fp p)}

/-- **The place of an operand has the value of the operand**, where the constant-one wire carries
one. -/
theorem Netlist.value_of_place (hone : w.getD 0 0 = 1) {o : Operand} {place : Place p}
    (hplace : n.place o = .ok place) : place.value w = o.value n w := by
  cases o with
  | wire name =>
    obtain ⟨i, hi, heq⟩ := bind_eq_ok_iff.1 hplace
    obtain rfl := Except.ok.inj heq
    rw [Operand.value, hi, Place.value, one_mul]
  | lit k =>
    obtain rfl := Except.ok.inj hplace
    rw [Operand.value, Place.value, hone, mul_one]

/-- The values fit a placed gate exactly when the equation of the gate holds. -/
theorem Netlist.holds_of_placeGate (hne : n.wires ≠ []) (hone : w.getD 0 0 = 1) {g : Gate}
    {g' : PlacedGate p} (hplace : n.placeGate g = .ok g') : g'.Holds w ↔ g.Holds n w := by
  obtain ⟨hleft, hright, htarget, hop⟩ := (placeGate_eq_ok_iff hne).1 hplace
  rw [PlacedGate.Holds, Gate.Holds, hop, value_of_place hone hleft, value_of_place hone hright,
    value_of_place hone htarget]

/-! ### The first broken equation -/

/-- The first hit depends only on where the hits are. -/
theorem findIdx?_eq_of_forall₂ {α β : Type} {P : α → Bool} {Q : β → Bool} {as : List α}
    {bs : List β} (h : List.Forall₂ (fun a b ↦ P a = Q b) as bs) :
    as.findIdx? P = bs.findIdx? Q := by
  induction h with
  | nil => rfl
  | cons hab _ ih => rw [List.findIdx?_cons, List.findIdx?_cons, hab, ih]

namespace Netlist

/-- **Each constraint of a netlist says exactly what its gate says.** A netlist with a wire whose
operands resolve has a constraint system, with a row of each matrix for a gate. On values of which
the first is one, a row holds when the equation of its gate does, and the first violated constraint
is that of the first gate whose equation fails. -/
theorem exists_system_rowHolds_iff (hne : n.wires ≠ []) (hn : n.Resolved) :
    ∃ m : RankOneSystem p, RankOneSystem.ofNetlist n = .ok m ∧
      m.a.length = n.gates.length ∧ m.b.length = n.gates.length ∧
      m.c.length = n.gates.length ∧
      ∀ w : List (Fp p), w.length = n.numWires → w.head? = some 1 →
        (∀ i, (hi : i < n.gates.length) →
          (RankOneSystem.RowHolds w m.a m.b m.c i ↔ n.gates[i].Holds n w)) ∧
        m.firstViolated w = .ok (n.gates.findIdx? fun g ↦ ¬ g.Holds n w) := by
  obtain ⟨gs, hgs⟩ := (exists_placedGates_iff (p := p) hne).2 hn
  have hrel := mapM_eq_ok_iff.1 hgs
  have hlength : gs.length = n.gates.length := hrel.length_eq.symm
  refine ⟨_, system_eq_ok_iff.2 ⟨gs, hgs, rfl⟩, ?_, ?_, ?_, fun w hw hhead ↦ ?_⟩
  · exact (List.length_map _).trans hlength
  · exact (List.length_map _).trans hlength
  · exact (List.length_map _).trans hlength
  have hone : w.getD 0 0 = 1 := by
    rw [List.getD_eq_getElem?_getD, ← List.head?_eq_getElem?, hhead]
    rfl
  rw [← hw, PlacedGate.firstViolated_system hone]
  constructor
  · intro i hi
    have hi' : i < gs.length := hlength ▸ hi
    rw [PlacedGate.rowHolds_system_iff hone gs hi']
    exact holds_of_placeGate hne hone (hrel.get hi hi')
  · refine congrArg Except.ok (findIdx?_eq_of_forall₂ (hrel.flip.imp fun g' g hplace ↦ ?_))
    exact decide_eq_decide.2 (not_congr (holds_of_placeGate hne hone hplace))

/-- A name that two wires have, a sum with both operands on one wire, a sum of literals whose target
is a literal, and a product. -/
def sharedNetlist : Netlist where
  gates := [⟨.add, .wire "x", .wire "x", .wire "y"⟩, ⟨.add, .lit 3, .lit (-4), .lit (-1)⟩,
    ⟨.mul, .lit 2, .wire "y", .wire "x"⟩]
  wires := [oneWire, "x", "x", "y"]
  numInputs := 2

/-- The name shared by two wires stands for the first of them, so the last equation fails on values
that fit the other two. -/
theorem sharedNetlist_firstViolated :
    sharedNetlist.wires ≠ [] ∧ sharedNetlist.Resolved ∧
      ([1, 5, 20, 10] : List (Fp 101)).length = sharedNetlist.numWires ∧
      ([1, 5, 20, 10] : List (Fp 101)).head? = some 1 ∧
      ∃ m : RankOneSystem 101, RankOneSystem.ofNetlist sharedNetlist = .ok m ∧
        m.firstViolated [1, 5, 20, 10] = .ok (some 2) := by
  have hne : sharedNetlist.wires ≠ [] := by decide
  have hn : sharedNetlist.Resolved := by decide
  obtain ⟨m, hm, -, -, -, hrows⟩ := exists_system_rowHolds_iff (p := 101) hne hn
  have hlength : ([1, 5, 20, 10] : List (Fp 101)).length = sharedNetlist.numWires := by decide
  have hhead : ([1, 5, 20, 10] : List (Fp 101)).head? = some 1 := by decide
  refine ⟨hne, hn, hlength, hhead, m, hm, (hrows _ hlength hhead).2.trans ?_⟩
  decide +kernel

end Netlist

end SuccinctProof
