import SuccinctProof.Proofs.Netlist.Meaning

/-!
# The layout and the size of a netlist

What the netlist of a circuit looks like, whatever the circuit computes. The names of its wires are
distinct, and the constant one, the inputs and the wires that gates fill follow one another in this
order (`Netlist.HasLayout`). Each gate fills one wire, so the gates can be counted on the wires.

They can also be counted on the circuit. `Expr.cost` is the number of gates of an expression: a sum
or product has one of its own and those of its compound sides, and a power has one for each factor
after the first. Flattening emits just as many (`Draft.length_gates_of_flatten`), and a circuit
costs what its statements cost (`Circuit.layout_of_ofCircuit`).
-/

namespace SuccinctProof

/-! ### Costs -/

namespace Expr

/-- The number of gates that give a wire the value of an expression. An operand needs one only for
its own sake, when it is the whole expression, and none as a side of a sum or product. -/
def cost : Expr → ℕ
  | var _ | lit _ => 1
  | binary _ left right =>
    1 + (if left.operand? = none then left.cost else 0) +
      (if right.operand? = none then right.cost else 0)
  | pow _ n => max 1 (n - 1).toNat

/-- The number of gates of a side of a sum or product. -/
def sideCost (e : Expr) : ℕ := if e.operand? = none then e.cost else 0

theorem cost_binary (op : ArithOp) (l r : Expr) :
    (binary op l r).cost = 1 + l.sideCost + r.sideCost := rfl

end Expr

namespace Draft

@[simp] theorem length_gates_emit (d : Draft) (op : ArithOp) (left right : Operand)
    (target : String) : (d.emit op left right target).gates.length = d.gates.length + 1 := by
  rw [emit, List.length_append, List.length_singleton]

/-- **A power costs one gate for each factor after the first**, and at least one. -/
theorem length_gates_power (base : Operand) (n : ℕ) : ∀ (d : Draft) (target : String),
    (d.power base n target).gates.length = d.gates.length + max 1 (n - 1) := by
  induction n using Nat.strongRecOn with
  | ind n ih =>
    intro d target
    match n with
    | 0 => exact length_gates_emit ..
    | 1 => exact length_gates_emit ..
    | 2 => exact length_gates_emit ..
    | n + 3 =>
      -- the wire for the rest of the chain is allocated without a gate
      show ((d.allocate.2.emit .mul (.wire d.allocate.1) base target).power base (n + 2)
        d.allocate.1).gates.length = _
      rw [ih (n + 2) (by omega), length_gates_emit, show d.allocate.2.gates = d.gates from rfl]
      omega

/-- A side costs what it is filled with. -/
theorem length_gates_of_fill {e : Expr}
    (ih : ∀ {target : String} {d d' : Draft}, flatten target e d = .ok d' →
      d'.gates.length = d.gates.length + e.cost)
    {d₀ d d' : Draft} (h : fill (d₀.side e).2.1 e d = .ok d') :
    d'.gates.length = d.gates.length + e.sideCost := by
  rw [Expr.sideCost]
  cases ho : e.operand? with
  | some operand =>
    rw [side, ho] at h
    rw [if_neg (Option.some_ne_none operand), ← Except.ok.inj h, Nat.add_zero]
  | none =>
    rw [side, ho] at h
    rw [if_pos rfl]
    exact ih h

/-- **An expression is flattened into as many gates as it costs.** -/
theorem length_gates_of_flatten {e : Expr} : ∀ {target : String} {d d' : Draft},
    flatten target e d = .ok d' → d'.gates.length = d.gates.length + e.cost := by
  induction e with
  | var name =>
    intro target d d' h
    rw [flatten] at h
    exact Except.ok.inj h ▸ length_gates_power ..
  | lit value =>
    intro target d d' h
    rw [flatten] at h
    exact Except.ok.inj h ▸ length_gates_power ..
  | binary op l r ihl ihr =>
    intro target d d' h
    rw [flatten_binary] at h
    obtain ⟨d₁, hleft, hright⟩ := bind_eq_ok_iff.1 h
    rw [length_gates_of_fill ihr hright, length_gates_of_fill ihl hleft, length_gates_emit,
      gates_side, gates_side, Expr.cost_binary]
    omega
  | pow base n =>
    intro target d d' h
    obtain ⟨operand, -, -, rfl⟩ := flatten_pow_eq_ok_iff.1 h
    rw [length_gates_power, Expr.cost]
    omega

/-- **A run costs what its statements cost.** -/
theorem length_gates_of_run {body : List Statement} {d d' : Draft} (h : run body d = .ok d') :
    d'.gates.length = d.gates.length + (body.map (·.value.cost)).sum := by
  induction body generalizing d with
  | nil => cases h
  | cons s rest ih =>
    rw [List.map_cons, List.sum_cons]
    cases s with
    | assign target value =>
      obtain ⟨d₁, hdeclare, d₂, hflatten, hrun⟩ := run_assign_eq_ok_iff.1 h
      obtain ⟨-, -, rfl⟩ := declare_eq_ok_iff.1 hdeclare
      rw [ih hrun, length_gates_of_flatten hflatten, Nat.add_assoc]
      rfl
    | ret value =>
      obtain ⟨rfl, hflatten⟩ := run_ret_eq_ok_iff.1 h
      rw [length_gates_of_flatten hflatten]
      rfl

end Draft

/-! ### Layout -/

namespace Netlist

/-- How the wires and gates of a netlist are laid out for a circuit. -/
structure HasLayout (c : Circuit) (n : Netlist) : Prop where
  /-- The inputs are counted. -/
  numInputs_eq : n.numInputs = c.inputs.length
  /-- No two wires share a name. -/
  nodup : n.wires.Nodup
  /-- The constant-one wire and the inputs come first, in order. -/
  starts : oneWire :: c.inputs <+: n.wires
  /-- There is one wire for the returned value. -/
  count_outWire : n.wires.count outWire = 1
  /-- A name leads back to the position at which it stands. -/
  wireIndex_getElem : ∀ i (hi : i < n.wires.length), n.wireIndex n.wires[i] = .ok i
  /-- Gates fill wires. -/
  target_eq_wire : ∀ g ∈ n.gates, ∃ name, g.target = .wire name
  /-- A wire after the inputs is filled by one gate. -/
  count_target : ∀ i (hi : i < n.wires.length), n.numInputs + 1 ≤ i →
    (n.gates.map (·.target)).count (.wire n.wires[i]) = 1
  /-- The constant-one wire and the inputs are not filled. -/
  notMem_targets : ∀ name ∈ oneWire :: c.inputs, .wire name ∉ n.gates.map (·.target)
  /-- There is a wire for the constant one, for each input and for each gate. -/
  numWires_eq : n.numWires = 1 + n.numInputs + n.numConstraints
  /-- Not all wires are public. -/
  numPublic_lt : n.numPublic < n.numWires

variable {n : Netlist}

/-- In a netlist with single assignment a name stands on the first wires or is that of one target,
and not both. -/
theorem SingleAssignment.count_targets (h : n.SingleAssignment) (name : String) :
    (n.gates.map (·.target)).count (.wire name) =
      (n.wires.drop (n.numInputs + 1)).count name := by
  rw [h.targets.count_eq, List.count_map_of_injective _ _ fun _ _ heq ↦ Operand.wire.inj heq]

/-- Each wire after the inputs has a gate of its own. -/
theorem SingleAssignment.numWires_eq (h : n.SingleAssignment) :
    n.numWires = 1 + n.numInputs + n.numConstraints := by
  have hlen := h.targets.length_eq
  have hlt := h.inputs_lt
  rw [List.length_map, List.length_map, List.length_drop] at hlen
  rw [numConstraints, numWires] at *
  omega

/-- **A flattened circuit is laid out**: the wires that are not given are those that gates fill. -/
theorem IsFlattening.hasLayout {c : Circuit} (h : n.IsFlattening c) : n.HasLayout c := by
  have hsingle := h.singleAssignment
  have hnodup := hsingle.nodup
  obtain ⟨hout, -⟩ := List.cons_subset.1 h.targets_subset
  have hwires : oneWire :: c.inputs ++ n.wires.drop (n.numInputs + 1) = n.wires := by
    rw [← h.take_wires, List.take_append_drop]
  have hdisjoint := hwires ▸ hnodup
  have hpos : 0 < n.numConstraints := by
    have hmem : .wire outWire ∈ n.gates.map (·.target) :=
      hsingle.targets.symm.subset (List.mem_map_of_mem hout)
    rw [numConstraints, ← List.length_map (f := (·.target))]
    exact List.length_pos_of_mem hmem
  refine ⟨h.numInputs_eq, hnodup, ⟨_, hwires⟩, ?_, fun i hi ↦ ?_, fun g hg ↦ ?_, fun i hi hle ↦ ?_,
    fun name hname hmem ↦ ?_, hsingle.numWires_eq, ?_⟩
  · exact List.count_eq_one_of_mem hnodup (List.mem_of_mem_drop hout)
  · exact (wireIndex_eq_ok_iff hnodup).2 (List.getElem?_eq_getElem hi)
  · obtain ⟨name, -, hname⟩ := List.mem_map.1 (hsingle.targets.subset (List.mem_map_of_mem hg))
    exact ⟨name, hname.symm⟩
  · rw [hsingle.count_targets]
    exact List.count_eq_one_of_mem (hnodup.sublist (List.drop_sublist _ _)) (getElem_mem_drop hi hle)
  · have hcount := List.count_pos_iff.2 hmem
    rw [hsingle.count_targets, List.count_pos_iff] at hcount
    exact (List.nodup_append.1 hdisjoint).2.2 name hname name hcount rfl
  · calc n.numPublic ≤ n.numInputs + 1 := Nat.mod_le _ _
      _ < n.numWires := by rw [hsingle.numWires_eq]; omega

end Netlist

/-- **The netlist of a circuit is laid out in a fixed way, and its size can be read off the
circuit.** The constant one, the inputs and the wires that gates fill follow one another, no name is
repeated, and there are as many gates as the statements cost together. -/
theorem Circuit.layout_of_ofCircuit {c : Circuit} {n : Netlist} (h : Netlist.ofCircuit c = .ok n) :
    n.HasLayout c ∧ n.numConstraints = (c.body.map (·.value.cost)).sum := by
  refine ⟨(Netlist.isFlattening_of_ofCircuit h).hasLayout, ?_⟩
  rw [Netlist.ofCircuit] at h
  obtain ⟨d, hinputs, h⟩ := bind_eq_ok_iff.1 h
  obtain ⟨d', hrun, h⟩ := bind_eq_ok_iff.1 h
  obtain rfl := Except.ok.inj h
  -- declaring the inputs emits no gate
  obtain ⟨gs, hgs, hperm⟩ := (Draft.continues_of_declareAll hinputs).gates
  rw [List.map_nil, List.perm_nil, List.map_eq_nil_iff] at hperm
  show d'.gates.length = _
  rw [Draft.length_gates_of_run hrun, hgs, hperm]
  exact Nat.zero_add _

/-- A circuit with a compound side on either side, a power of one factor and one of four. -/
def allShapes : Circuit where
  inputs := ["sym_2", "x"]
  body := [.assign "y" (.pow (.var "x") 1), .assign "z" (.var "y"),
    .ret (.binary .add (.binary .mul (.var "z") (.lit 3)) (.pow (.var "sym_2") 4))]

/-- The last statement costs a gate for the sum, one for the product and three for the power. -/
theorem allShapes_layout : ∃ n, Netlist.ofCircuit allShapes = .ok n ∧ n.HasLayout allShapes ∧
    n.wires = ["~one", "sym_2", "x", "y", "z", "~out", "sym_1", "sym_3", "sym_4", "sym_5"] ∧
    n.numConstraints = 1 + 1 + (1 + 1 + 3) := by
  obtain ⟨hlayout, hcost⟩ := Circuit.layout_of_ofCircuit (c := allShapes) rfl
  exact ⟨_, rfl, hlayout, rfl, hcost⟩

end SuccinctProof
