import SuccinctProof.Proofs.Netlist.Solving
import SuccinctProof.Proofs.Qap.Lift

/-!
# The constraints of a netlist

Each gate becomes one row of each matrix, and on values whose first entry is one the row holds
exactly when the values fit the gate (`PlacedGate.rowHolds_iff`). A sum with both operands on one
wire needs no case of its own, since an entry of the row is added to, not replaced. The first
violated constraint is that of the first gate that the values do not fit
(`PlacedGate.firstViolated_system`).

So the solutions of a netlist are exactly the vectors that satisfy its constraint system
(`Netlist.isSolution_iff`). There is a system as soon as the operands of the gates are literals or
names of wires (`Netlist.exists_system_iff`). `Netlist.IsSolution.exists_system` collects what later
stages ask of this system, and `Netlist.IsFlattening.exists_lifts` says that it can be lifted when
it came from a circuit.
-/

namespace SuccinctProof

variable {p : ℕ} [Modulus p]

/-! ### Rows -/

/-- A row with a single entry has the value at its place. -/
theorem dot_singleRow (w : List (Fp p)) (place : Place p) :
    dot (singleRow w.length place) w = place.value w := by
  rw [singleRow, Place.value]
  rcases Nat.lt_or_ge place.wire w.length with hlt | hge
  · rw [dot_set_zero _ hlt hlt, List.getD_eq_getElem _ _ hlt]
  · rw [List.set_eq_of_length_le (by rwa [List.length_replicate]), dot_replicate_zero,
      List.getD_eq_default _ _ hge, mul_zero]

namespace PlacedGate

theorem length_leftRow (width : ℕ) (g : PlacedGate p) : (g.leftRow width).length = width := by
  rw [leftRow]
  split
  · rw [singleRow, List.length_set, List.length_replicate]
  · rw [List.length_modify, List.length_modify, List.length_replicate]

theorem length_rightRow (width : ℕ) (g : PlacedGate p) : (g.rightRow width).length = width := by
  rw [rightRow]
  split <;> rw [singleRow, List.length_set, List.length_replicate]

theorem length_targetRow (width : ℕ) (g : PlacedGate p) :
    (g.targetRow width).length = width := by
  rw [targetRow, singleRow, List.length_set, List.length_replicate]

/-- **The row of a gate holds exactly when the values fit the gate.** -/
theorem rowHolds_iff {w : List (Fp p)} (hone : w.getD 0 0 = 1) (g : PlacedGate p) :
    dot (g.leftRow w.length) w * dot (g.rightRow w.length) w = dot (g.targetRow w.length) w ↔
      g.Holds w := by
  rw [targetRow, dot_singleRow, Holds, leftRow, rightRow]
  cases g.op with
  | mul =>
    show dot (singleRow w.length g.left) w * dot (singleRow w.length g.right) w = _ ↔ _
    rw [dot_singleRow, dot_singleRow]
    rfl
  | add =>
    dsimp only
    rw [dot_modify_add _ (by rw [List.length_modify, List.length_replicate]),
      dot_modify_add _ (List.length_replicate ..), dot_replicate_zero, zero_add, dot_singleRow,
      Place.value, Place.value, Place.value, hone, mul_one, mul_one]
    rfl

end PlacedGate

instance (w : List (Fp p)) (g : PlacedGate p) : Decidable (g.Holds w) :=
  inferInstanceAs (Decidable (_ = _))

namespace PlacedGate

/-- The constraint system of gates over a number of wires, one row of each matrix for a gate. -/
def system (width : ℕ) (gs : List (PlacedGate p)) : RankOneSystem p where
  a := gs.map (·.leftRow width)
  b := gs.map (·.rightRow width)
  c := gs.map (·.targetRow width)
  numWires := width

theorem sameHeight_system (width : ℕ) (gs : List (PlacedGate p)) : (system width gs).SameHeight :=
  ⟨by simp [system], by simp [system]⟩

theorem numConstraints_system (width : ℕ) (gs : List (PlacedGate p)) :
    (system width gs).numConstraints = gs.length :=
  List.length_map _

/-- The constraint of a gate holds exactly when the values fit the gate. -/
theorem rowHolds_system_iff {w : List (Fp p)} (hone : w.getD 0 0 = 1) (gs : List (PlacedGate p))
    {i : ℕ} (hi : i < gs.length) :
    RankOneSystem.RowHolds w (system w.length gs).a (system w.length gs).b (system w.length gs).c
      i ↔ gs[i].Holds w := by
  rw [← rowHolds_iff hone, RankOneSystem.RowHolds]
  simp [system, hi]

/-- **The first violated constraint is that of the first gate that the values do not fit.** -/
theorem firstViolated_system {w : List (Fp p)} (hone : w.getD 0 0 = 1) (gs : List (PlacedGate p)) :
    (system w.length gs).firstViolated w = .ok (gs.findIdx? fun g ↦ ¬ g.Holds w) := by
  rw [RankOneSystem.firstViolated_eq_findIdx? (sameHeight_system _ gs) rfl, system,
    List.zip_map', List.zip_map', List.findIdx?_map]
  congr 2
  funext g
  exact decide_eq_decide.2 (not_congr (rowHolds_iff hone g))

/-- **The constraints hold exactly when the values fit every gate.** -/
theorem firstViolated_system_eq_none_iff {w : List (Fp p)} (hone : w.getD 0 0 = 1)
    (gs : List (PlacedGate p)) :
    (system w.length gs).firstViolated w = .ok none ↔ ∀ g ∈ gs, g.Holds w := by
  simp [firstViolated_system hone]

end PlacedGate

/-- An operand is a literal, or the name of a wire. -/
def Operand.Resolves (wires : List String) : Operand → Prop
  | .wire name => name ∈ wires
  | .lit _ => True

instance (wires : List String) : (o : Operand) → Decidable (o.Resolves wires)
  | .wire name => inferInstanceAs (Decidable (name ∈ wires))
  | .lit _ => inferInstanceAs (Decidable True)

namespace Netlist

variable {n : Netlist} {m : RankOneSystem p}

/-- Every operand and every target is a literal or the name of a wire. -/
def Resolved (n : Netlist) : Prop :=
  ∀ g ∈ n.gates, g.left.Resolves n.wires ∧ g.right.Resolves n.wires ∧ g.target.Resolves n.wires

instance (n : Netlist) : Decidable n.Resolved :=
  inferInstanceAs (Decidable (∀ g ∈ n.gates, _))

theorem exists_place_iff {o : Operand} :
    (∃ place : Place p, n.place o = .ok place) ↔ o.Resolves n.wires := by
  cases o with
  | lit value => exact iff_of_true ⟨⟨0, Fp.ofInt value⟩, rfl⟩ trivial
  | wire name =>
    show _ ↔ name ∈ n.wires
    rw [place, wireIndex, ← List.isSome_idxOf?]
    cases n.wires.idxOf? name with
    | some i => exact iff_of_true ⟨⟨i, 1⟩, rfl⟩ rfl
    | none =>
      refine iff_of_false ?_ Bool.false_ne_true
      rintro ⟨place, ⟨⟩⟩

/-- **The constraint system of a netlist is the system of its placed gates.** -/
theorem system_eq_ok_iff : RankOneSystem.ofNetlist n = .ok m ↔
    ∃ gs, n.placedGates = .ok gs ∧ PlacedGate.system n.numWires gs = m := by
  rw [RankOneSystem.ofNetlist, bind_eq_ok_iff]
  exact exists_congr fun gs ↦ and_congr_right fun _ ↦ ⟨Except.ok.inj, congrArg Except.ok⟩

/-- The gates of a netlist with a wire have places exactly when their operands resolve. -/
theorem exists_placedGates_iff (hne : n.wires ≠ []) :
    (∃ gs : List (PlacedGate p), n.placedGates = .ok gs) ↔ n.Resolved := by
  have hgate : ∀ g : Gate, (∃ g' : PlacedGate p, n.placeGate g = .ok g') ↔
      g.left.Resolves n.wires ∧ g.right.Resolves n.wires ∧ g.target.Resolves n.wires :=
    fun g ↦ by simp only [exists_placeGate_iff hne, exists_place_iff]
  constructor
  · rintro ⟨gs, hgs⟩ g hg
    obtain ⟨g', -, hg'⟩ := exists_of_mapM_eq_ok hgs hg
    exact (hgate g).1 ⟨g', hg'⟩
  · exact fun h ↦ exists_mapM_eq_ok fun g hg ↦ (hgate g).2 (h g hg)

/-- **A netlist with a wire has a constraint system exactly when its operands resolve**, whatever
else is wrong with it. -/
theorem exists_system_iff (hne : n.wires ≠ []) :
    (∃ m : RankOneSystem p, RankOneSystem.ofNetlist n = .ok m) ↔ n.Resolved := by
  rw [← exists_placedGates_iff (p := p) hne]
  constructor
  · rintro ⟨m, hm⟩
    obtain ⟨gs, hgs, -⟩ := system_eq_ok_iff.1 hm
    exact ⟨gs, hgs⟩
  · rintro ⟨gs, hgs⟩
    exact ⟨_, system_eq_ok_iff.2 ⟨gs, hgs, rfl⟩⟩

/-- What the constraint system of a netlist has from the netlist. -/
structure IsSystem (n : Netlist) (m : RankOneSystem p) : Prop where
  /-- The matrices have the same height. -/
  sameHeight : m.SameHeight
  /-- There is a column for each wire. -/
  numWires_eq : m.numWires = n.numWires
  /-- There is a constraint for each gate. -/
  numConstraints_eq : m.numConstraints = n.numConstraints
  /-- Every row has an entry for each wire. -/
  wide : ∀ row ∈ m.a ++ m.b ++ m.c, m.numWires ≤ row.length

/-- Every row has one entry for each wire. -/
theorem length_row_of_ofNetlist (hm : RankOneSystem.ofNetlist n = .ok m) :
    ∀ row ∈ m.a ++ m.b ++ m.c, row.length = n.numWires := by
  obtain ⟨gs, -, rfl⟩ := system_eq_ok_iff.1 hm
  intro row hrow
  simp only [PlacedGate.system, List.mem_append, List.mem_map] at hrow
  obtain (⟨g, -, rfl⟩ | ⟨g, -, rfl⟩) | ⟨g, -, rfl⟩ := hrow
  · exact g.length_leftRow _
  · exact g.length_rightRow _
  · exact g.length_targetRow _

theorem isSystem_of_ofNetlist (hm : RankOneSystem.ofNetlist n = .ok m) : n.IsSystem m := by
  have hwide := length_row_of_ofNetlist hm
  obtain ⟨gs, hgs, rfl⟩ := system_eq_ok_iff.1 hm
  refine ⟨PlacedGate.sameHeight_system _ gs, rfl, ?_, fun row hrow ↦ (hwide row hrow).ge⟩
  rw [PlacedGate.numConstraints_system]
  exact (mapM_eq_ok_iff.1 hgs).length_eq.symm

/-- The first of the values is that of the constant-one wire. -/
theorem getD_zero_of_take_eq {k : ℕ} {x w : List (Fp p)} (h : w.take (k + 1) = 1 :: x) :
    w.getD 0 0 = 1 := by
  have hfirst := congrArg (·.getD 0 0) h
  rwa [List.getD_eq_getElem?_getD, List.getElem?_take_of_lt (Nat.succ_pos _),
    ← List.getD_eq_getElem?_getD] at hfirst

/-- **The solutions of a netlist are the vectors that start with the constant one and the inputs and
satisfy its constraint system.** -/
theorem isSolution_iff (hm : RankOneSystem.ofNetlist n = .ok m) {x w : List (Fp p)} :
    n.IsSolution x w ↔ w.take (n.numInputs + 1) = 1 :: x ∧ m.firstViolated w = .ok none := by
  obtain ⟨gs, hgs, rfl⟩ := system_eq_ok_iff.1 hm
  constructor
  · rintro ⟨hlength, htake, gs', hgs', hholds⟩
    obtain rfl := Except.ok.inj (hgs.symm.trans hgs')
    rw [← hlength, PlacedGate.firstViolated_system_eq_none_iff (getD_zero_of_take_eq htake)]
    exact ⟨htake, hholds⟩
  · rintro ⟨htake, hsat⟩
    have hlength : w.length = n.numWires := RankOneSystem.length_of_firstViolated hsat
    rw [← hlength, PlacedGate.firstViolated_system_eq_none_iff (getD_zero_of_take_eq htake)] at hsat
    exact ⟨hlength, htake, gs, hgs, hsat⟩

/-- **A solution of a netlist satisfies its constraint system**, which exists. -/
theorem IsSolution.exists_system {x w : List (Fp p)} (h : n.IsSolution x w) :
    ∃ m, RankOneSystem.ofNetlist n = .ok m ∧ n.IsSystem m ∧ m.firstViolated w = .ok none := by
  obtain ⟨gs, hgs, -⟩ := h.holds
  have hm := system_eq_ok_iff.2 ⟨gs, hgs, rfl⟩
  exact ⟨_, hm, isSystem_of_ofNetlist hm, ((isSolution_iff hm).1 h).2⟩

/-- A netlist made of a circuit has a gate, since the output has one. -/
theorem IsFlattening.numConstraints_pos {c : Circuit} (h : n.IsFlattening c) :
    0 < n.numConstraints := by
  have hout := h.targets_subset List.mem_cons_self
  have hlength := h.singleAssignment.targets.length_eq
  rw [List.length_map, List.length_map] at hlength
  rw [numConstraints, hlength]
  exact List.length_pos_of_mem hout

end Netlist

/-! ### The program of a circuit -/

/-- **The constraints of an accepted circuit can be lifted**, when they are fewer than the modulus
and the number of inputs is one that 64 binary digits can hold. -/
theorem Netlist.IsFlattening.exists_lifts {p : ℕ} [Fact p.Prime] {c : Circuit} {n : Netlist}
    (h : n.IsFlattening c) (hlt : n.numConstraints < p)
    (hinputs : n.numInputs + 1 < UInt64.size) {m : RankOneSystem p}
    (hok : RankOneSystem.ofNetlist n = .ok m) (hm : n.IsSystem m) :
    ∃ q, Qap.ofNetlist n = .ok q ∧ q.Lifts m (n.numInputs + 1) := by
  have hpublic : n.numPublic = n.numInputs + 1 := Nat.mod_eq_of_lt hinputs
  have hle : n.numInputs + 1 ≤ m.numWires := by
    rw [hm.numWires_eq]
    exact h.singleAssignment.inputs_lt
  obtain ⟨q, hq, hlifts⟩ := Qap.exists_lifts hm.sameHeight
    (hm.numConstraints_eq ▸ h.numConstraints_pos) (hm.numConstraints_eq ▸ hlt) hm.wide
    (Nat.succ_pos _) hle
  refine ⟨q, ?_, hlifts⟩
  rw [Qap.ofNetlist, hok, hpublic]
  exact hq

end SuccinctProof
