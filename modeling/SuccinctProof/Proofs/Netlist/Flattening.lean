import Mathlib.Data.List.Nodup
import Mathlib.Data.List.Perm.Subperm
import SuccinctProof.Netlist.OfCircuit
import SuccinctProof.Proofs.Refusal

/-!
# The structure of a flattened circuit

Flattening only ever appends: gates at the end of the gates and wires at the end of the wires.
`Draft.Continues` says so of two drafts, and keeps account of two lists: the wires that the new
gates fill, and the wires that were added. Each operation of a draft has one lemma that says what it
adds to either list, and continuations compose (`Continues.trans`).

In the middle of an expression the lists differ, since a wire is allocated before the gate that
fills it. After a statement they agree, so every wire but the constant one and the inputs is filled
by exactly one gate. `Netlist.isFlattening_of_ofCircuit` says this of a whole circuit.

An auxiliary name is free when it is allocated because one of more consecutive numbers than there
are wires is not taken (`auxName_firstFree_notMem`). The names that a circuit chose play no part.
-/

namespace SuccinctProof

/-! ### Names -/

theorem auxName_injective : Function.Injective auxName := by
  intro i j h
  have hdigits : Nat.toDigits 10 i = Nat.toDigits 10 j :=
    String.ofList_injective ((String.append_right_inj "sym_").1 h)
  rw [← Nat.ofDigitChars_ten_toDigits (n := i), hdigits, Nat.ofDigitChars_ten_toDigits]

/-- A search that ends at a taken name has met nothing but taken names. -/
theorem auxName_mem_of_firstFree_mem {taken : List String} {steps k : ℕ}
    (h : auxName (firstFree taken steps k) ∈ taken) :
    ∀ i, k ≤ i → i ≤ k + steps → auxName i ∈ taken := by
  induction steps generalizing k with
  | zero =>
    intro i hi hi'
    rwa [show i = k by omega]
  | succ steps ih =>
    rw [firstFree] at h
    split at h
    · next hk =>
      intro i hi hi'
      rcases Nat.eq_or_lt_of_le hi with rfl | hlt
      · exact hk
      · exact ih h i hlt (by omega)
    · next hk => exact absurd h hk

/-- **The search ends at a free name**: the taken ones are too few for all the numbers it tries. -/
theorem auxName_firstFree_notMem (taken : List String) (k : ℕ) :
    auxName (firstFree taken taken.length k) ∉ taken := by
  intro h
  -- otherwise more distinct names are taken than there are taken names
  have hall := auxName_mem_of_firstFree_mem h
  have hsub : (List.range' k (taken.length + 1)).map auxName ⊆ taken := by
    intro name hname
    obtain ⟨i, hi, rfl⟩ := List.mem_map.1 hname
    rw [List.mem_range'_1] at hi
    exact hall i hi.1 (by omega)
  have hnodup : ((List.range' k (taken.length + 1)).map auxName).Nodup :=
    List.Nodup.map auxName_injective List.nodup_range'
  have hle := (hnodup.subperm hsub).length_le
  rw [List.length_map, List.length_range'] at hle
  omega

theorem isWireName_auxName (k : ℕ) : isWireName (auxName k) = true := by
  rw [isWireName, auxName, String.toList_append]
  rfl

namespace Draft

/-! ### Continuations -/

/-- The second draft comes from the first by adding gates that fill the wires `filled`, each once,
and wires `added` with new names. -/
structure Continues (d d' : Draft) (filled added : List String) : Prop where
  /-- Gates are appended, one for each wire that is filled. -/
  gates : ∃ gs, d'.gates = d.gates ++ gs ∧
    (gs.map (·.target)).Perm (filled.map Operand.wire)
  /-- Wires are appended. -/
  wires : d'.wires = d.wires ++ added
  /-- New names are names that a circuit could have chosen. -/
  isWireName : ∀ name ∈ added, isWireName name = true
  /-- No name is used twice. -/
  nodup : d.wires.Nodup → d'.wires.Nodup

namespace Continues

variable {d d' d'' : Draft} {filled filled' added added' : List String}

protected theorem refl (d : Draft) : Continues d d [] [] :=
  ⟨⟨[], by rw [List.append_nil], .refl _⟩, by rw [List.append_nil], by simp, id⟩

protected theorem trans (h : Continues d d' filled added) (h' : Continues d' d'' filled' added') :
    Continues d d'' (filled ++ filled') (added ++ added') := by
  obtain ⟨gs, hgs, hperm⟩ := h.gates
  obtain ⟨gs', hgs', hperm'⟩ := h'.gates
  refine ⟨⟨gs ++ gs', ?_, ?_⟩, ?_, ?_, h'.nodup ∘ h.nodup⟩
  · rw [hgs', hgs, List.append_assoc]
  · rw [List.map_append, List.map_append]
    exact hperm.append hperm'
  · rw [h'.wires, h.wires, List.append_assoc]
  · intro name hname
    exact (List.mem_append.1 hname).elim (h.isWireName name) (h'.isWireName name)

/-- The account of filled wires does not depend on the order. -/
theorem perm (h : Continues d d' filled added) (hperm : filled.Perm filled') :
    Continues d d' filled' added := by
  obtain ⟨gs, hgs, hgs'⟩ := h.gates
  exact ⟨⟨gs, hgs, hgs'.trans (hperm.map _)⟩, h.wires, h.isWireName, h.nodup⟩

/-- The output wire is not one that a circuit, or the allocation of auxiliary wires, could add. -/
theorem outWire_notMem (h : Continues d d' filled added) (hout : outWire ∉ d.wires) :
    outWire ∉ d'.wires := by
  rw [h.wires, List.mem_append]
  rintro (hmem | hadded)
  · exact hout hmem
  · exact absurd (h.isWireName _ hadded) (by decide)

theorem gates_subset (h : Continues d d' filled added) : d.gates ⊆ d'.gates := by
  obtain ⟨gs, hgs, -⟩ := h.gates
  rw [hgs]
  exact List.subset_append_left _ _

end Continues

/-! ### The operations of a draft -/

theorem continues_emit (d : Draft) (op : ArithOp) (left right : Operand) (target : String) :
    Continues d (d.emit op left right target) [target] [] :=
  ⟨⟨[⟨op, left, right, .wire target⟩], rfl, .refl _⟩, (List.append_nil _).symm, by simp, id⟩

/-- Adding a wire with a new name. -/
theorem continues_addWire {d : Draft} {name : String} (k : ℕ)
    (hname : SuccinctProof.isWireName name = true) (hnew : name ∉ d.wires) :
    Continues d { d with wires := d.wires ++ [name], counter := k } [] [name] where
  gates := ⟨[], (List.append_nil _).symm, .refl _⟩
  wires := rfl
  isWireName _ h := List.mem_singleton.1 h ▸ hname
  nodup h := by
    refine h.append (List.nodup_singleton name) ?_
    rwa [List.disjoint_singleton]

theorem continues_allocate (d : Draft) : Continues d d.allocate.2 [] [d.allocate.1] :=
  continues_addWire _ (isWireName_auxName _) (auxName_firstFree_notMem _ _)

theorem declare_eq_ok_iff {d d' : Draft} {name : String} :
    d.declare name = .ok d' ↔ SuccinctProof.isWireName name = true ∧ name ∉ d.wires ∧
      d' = { d with wires := d.wires ++ [name] } := by
  rw [declare]
  cases hname : SuccinctProof.isWireName name with
  | false => simp
  | true =>
    by_cases hnew : name ∈ d.wires
    · simp [hnew]
    · simp [hnew, eq_comm]

theorem continues_of_declare {d d' : Draft} {name : String} (h : d.declare name = .ok d') :
    Continues d d' [] [name] := by
  obtain ⟨hname, hnew, rfl⟩ := declare_eq_ok_iff.1 h
  exact continues_addWire d.counter hname hnew

/-- A power fills its target and the auxiliary wires of its chain. -/
theorem exists_continues_power (base : Operand) (n : ℕ) : ∀ (d : Draft) (target : String),
    ∃ added, Continues d (d.power base n target) (target :: added) added := by
  induction n using Nat.strongRecOn with
  | ind n ih =>
    intro d target
    match n with
    | 0 => exact ⟨[], continues_emit ..⟩
    | 1 => exact ⟨[], continues_emit ..⟩
    | 2 => exact ⟨[], continues_emit ..⟩
    | n + 3 =>
      obtain ⟨added, hadded⟩ := ih (n + 2) (by omega)
        (d.allocate.2.emit .mul (.wire d.allocate.1) base target) d.allocate.1
      exact ⟨d.allocate.1 :: added,
        (d.continues_allocate.trans (continues_emit ..)).trans hadded⟩

theorem continues_side (d : Draft) (e : Expr) :
    Continues d (d.side e).2.2 [] (d.side e).2.1.toList := by
  rw [side]
  split
  · exact .refl d
  · exact d.continues_allocate

/-- The second half of a compound side: its gates, if it was given a wire. -/
def fill (aux? : Option String) (e : Expr) (d : Draft) : Except Error Draft :=
  match aux? with
  | some aux => flatten aux e d
  | none => .ok d

/-- **A sum or product in four steps**: both sides, the gate, and then what the sides still lack. -/
theorem flatten_binary (target : String) (op : ArithOp) (l r : Expr) (d : Draft) :
    flatten target (.binary op l r) d =
      fill (d.side l).2.1 l ((((d.side l).2.2.side r).2.2).emit op (d.side l).1
        ((d.side l).2.2.side r).1 target) >>= fill ((d.side l).2.2.side r).2.1 r := by
  rw [flatten]
  obtain ⟨a, auxLeft, d₁⟩ := d.side l
  dsimp only
  obtain ⟨b, auxRight, d₂⟩ := d₁.side r
  cases auxLeft <;> cases auxRight <;> rfl

/-- A power is flattened when its base is an operand and its exponent is positive. -/
theorem flatten_pow_eq_ok_iff {target : String} {base : Expr} {n : Int} {d d' : Draft} :
    flatten target (.pow base n) d = .ok d' ↔
      ∃ o, base.operand? = some o ∧ 1 ≤ n ∧ d.power o n.toNat target = d' := by
  rw [flatten]
  cases base.operand? with
  | none =>
    constructor
    · intro h
      cases h
    · rintro ⟨o, ho, -⟩
      cases ho
  | some o =>
    dsimp only
    constructor
    · intro h
      split at h
      · cases h
      · next hn => exact ⟨o, rfl, by omega, Except.ok.inj h⟩
    · rintro ⟨o', ho, hn, rfl⟩
      obtain rfl := Option.some.inj ho
      exact if_neg (by omega)

/-- Filling, for a side whose expression is known to fill its targets. -/
theorem exists_continues_fill {aux? : Option String} {e : Expr} {d d' : Draft}
    (ih : ∀ {target : String} {d d' : Draft}, flatten target e d = .ok d' →
      ∃ added, Continues d d' (target :: added) added)
    (h : fill aux? e d = .ok d') :
    ∃ added, Continues d d' (aux?.toList ++ added) added := by
  cases aux? with
  | none => exact Except.ok.inj h ▸ ⟨[], .refl d⟩
  | some aux => exact ih h

/-- **An expression fills its target and every wire that it adds.** -/
theorem exists_continues_of_flatten {e : Expr} : ∀ {target : String} {d d' : Draft},
    flatten target e d = .ok d' → ∃ added, Continues d d' (target :: added) added := by
  induction e with
  | var name =>
    intro target d d' h
    rw [flatten] at h
    exact Except.ok.inj h ▸ exists_continues_power ..
  | lit value =>
    intro target d d' h
    rw [flatten] at h
    exact Except.ok.inj h ▸ exists_continues_power ..
  | binary op l r ihl ihr =>
    intro target d d' h
    rw [flatten_binary] at h
    obtain ⟨d₃, hleft, hright⟩ := bind_eq_ok_iff.1 h
    obtain ⟨addedLeft, hl⟩ := exists_continues_fill ihl hleft
    obtain ⟨addedRight, hr⟩ := exists_continues_fill ihr hright
    set auxLeft := (d.side l).2.1.toList with hauxLeft
    set auxRight := ((d.side l).2.2.side r).2.1.toList with hauxRight
    have hall := ((((d.continues_side l).trans (continues_side _ r)).trans
      (continues_emit ..)).trans hl).trans hr
    refine ⟨_, hall.perm ?_⟩
    -- the wires of the sides were added before the gate, and are filled after it
    simp only [List.nil_append, List.append_nil, List.cons_append, List.append_assoc]
    refine .cons _ (.append_left _ ?_)
    rw [← List.append_assoc, ← List.append_assoc]
    exact .append_right _ List.perm_append_comm
  | pow base n =>
    intro target d d' h
    obtain ⟨operand, -, -, rfl⟩ := flatten_pow_eq_ok_iff.1 h
    exact exists_continues_power ..

/-! ### Statements -/

/-- The names of the inputs are added, and nothing is filled. -/
theorem continues_of_declareAll {names : List String} {d d' : Draft}
    (h : names.foldlM declare d = .ok d') : Continues d d' [] names := by
  induction names generalizing d with
  | nil => exact Except.ok.inj h ▸ .refl d
  | cons name names ih =>
    rw [List.foldlM_cons] at h
    obtain ⟨d₁, hname, hnames⟩ := bind_eq_ok_iff.1 h
    exact (continues_of_declare hname).trans (ih hnames)

/-- An assignment fills what it adds. -/
theorem exists_continues_of_assign {target : String} {value : Expr} {d d₁ d' : Draft}
    (hdeclare : d.declare target = .ok d₁) (hflatten : flatten target value d₁ = .ok d') :
    ∃ added, Continues d d' (target :: added) (target :: added) := by
  obtain ⟨added, hadded⟩ := exists_continues_of_flatten hflatten
  exact ⟨added, (continues_of_declare hdeclare).trans hadded⟩

/-- The names that statements assign to. -/
def targets : List Statement → List String
  | [] => []
  | .assign target _ :: rest => target :: targets rest
  | .ret _ :: rest => targets rest

theorem mem_targets_of_assign_mem {target : String} {value : Expr} {body : List Statement}
    (h : .assign target value ∈ body) : target ∈ targets body := by
  induction body with
  | nil => exact nomatch h
  | cons s rest ih =>
    rcases List.mem_cons.1 h with rfl | hrest
    · exact List.mem_cons_self
    · cases s with
      | assign other value' => exact List.mem_cons_of_mem _ (ih hrest)
      | ret value' => exact ih hrest

/-- The draft in which the wire for the returned value has been added. -/
def addOut (d : Draft) : Draft := { d with wires := d.wires ++ [outWire] }

/-- A run that starts with an assignment declares the target, flattens the value, and goes on. -/
theorem run_assign_eq_ok_iff {target : String} {value : Expr} {rest : List Statement}
    {d d' : Draft} : run (.assign target value :: rest) d = .ok d' ↔
      ∃ d₁, d.declare target = .ok d₁ ∧ ∃ d₂, flatten target value d₁ = .ok d₂ ∧
        run rest d₂ = .ok d' := by
  rw [run]
  simp only [bind_eq_ok_iff]

/-- A run that starts with a return statement ends with it. -/
theorem run_ret_eq_ok_iff {value : Expr} {rest : List Statement} {d d' : Draft} :
    run (.ret value :: rest) d = .ok d' ↔
      rest = [] ∧ flatten outWire value d.addOut = .ok d' := by
  rw [run, bind_eq_ok_iff, addOut]
  cases rest with
  | nil =>
    constructor
    · rintro ⟨d₁, hflatten, heq⟩
      exact ⟨rfl, Except.ok.inj heq ▸ hflatten⟩
    · rintro ⟨-, hflatten⟩
      exact ⟨d', hflatten, rfl⟩
  | cons s rest =>
    constructor
    · rintro ⟨d₁, -, herror⟩
      cases herror
    · rintro ⟨hnil, -⟩
      cases hnil

/-- **A run is a continuation up to the return statement, which adds the output wire, and another
one after it.** -/
theorem exists_continues_of_run {body : List Statement} {d d' : Draft} (h : run body d = .ok d') :
    ∃ d₁ before after, Continues d d₁ before before ∧ targets body ⊆ before ∧
      Continues d₁.addOut d' (outWire :: after) after := by
  induction body generalizing d with
  | nil => exact nomatch h
  | cons s rest ih =>
    cases s with
    | assign target value =>
      obtain ⟨d₂, hdeclare, d₃, hflatten, hrun⟩ := run_assign_eq_ok_iff.1 h
      obtain ⟨added, hadded⟩ := exists_continues_of_assign hdeclare hflatten
      obtain ⟨d₁, before, after, hbefore, htargets, hafter⟩ := ih hrun
      refine ⟨d₁, _, after, hadded.trans hbefore, ?_, hafter⟩
      rw [targets, List.cons_append, List.cons_subset]
      exact ⟨List.mem_cons_self, fun t ht ↦
        List.mem_cons_of_mem _ (List.mem_append_right _ (htargets ht))⟩
    | ret value =>
      obtain ⟨rfl, hflatten⟩ := run_ret_eq_ok_iff.1 h
      obtain ⟨after, hafter⟩ := exists_continues_of_flatten hflatten
      exact ⟨d, [], after, .refl d, List.nil_subset _, hafter⟩

/-- A run keeps the gates that were there. -/
theorem gates_subset_of_run {body : List Statement} {d d' : Draft} (h : run body d = .ok d') :
    d.gates ⊆ d'.gates := by
  obtain ⟨d₁, before, after, hbefore, -, hafter⟩ := exists_continues_of_run h
  exact List.Subset.trans hbefore.gates_subset hafter.gates_subset

end Draft

/-! ### The netlist of a circuit -/

/-- No two wires share a name, and every wire after the inputs is the target of exactly one gate. -/
structure Netlist.SingleAssignment (n : Netlist) : Prop where
  /-- The names of the wires are distinct. -/
  nodup : n.wires.Nodup
  /-- There are wires for the constant one and for the inputs. -/
  inputs_lt : n.numInputs < n.numWires
  /-- The targets are the other wires, each once. -/
  targets : (n.gates.map (·.target)).Perm ((n.wires.drop (n.numInputs + 1)).map .wire)

/-- What a netlist has from the circuit that it was made of. -/
structure Netlist.IsFlattening (c : Circuit) (n : Netlist) : Prop where
  /-- The inputs are counted. -/
  numInputs_eq : n.numInputs = c.inputs.length
  /-- The constant-one wire and the inputs come first, in order. -/
  take_wires : n.wires.take (n.numInputs + 1) = oneWire :: c.inputs
  /-- The values that the circuit defines have wires after them. -/
  targets_subset : outWire :: Draft.targets c.body ⊆ n.wires.drop (n.numInputs + 1)
  /-- And so have auxiliary values; each of these wires is filled once. -/
  singleAssignment : n.SingleAssignment

/-- The body of a circuit that is accepted is drafted after its inputs. -/
theorem Netlist.exists_run_of_ofCircuit {c : Circuit} {n : Netlist}
    (h : Netlist.ofCircuit c = .ok n) :
    ∃ d d', c.inputs.foldlM Draft.declare ⟨[], [oneWire], 0⟩ = .ok d ∧
      Draft.run c.body d = .ok d' ∧ ⟨d'.gates, d'.wires, c.inputs.length⟩ = n := by
  rw [Netlist.ofCircuit] at h
  obtain ⟨d, hinputs, h⟩ := bind_eq_ok_iff.1 h
  obtain ⟨d', hrun, h⟩ := bind_eq_ok_iff.1 h
  exact ⟨d, d', hinputs, hrun, Except.ok.inj h⟩

/-- **A circuit that is accepted is flattened into a netlist with single assignment.** -/
theorem Netlist.isFlattening_of_ofCircuit {c : Circuit} {n : Netlist}
    (h : Netlist.ofCircuit c = .ok n) : n.IsFlattening c := by
  obtain ⟨d, d', hinputs, hrun, rfl⟩ := Netlist.exists_run_of_ofCircuit h
  obtain ⟨d₁, before, after, hbefore, htargets, hafter⟩ := Draft.exists_continues_of_run hrun
  -- the inputs are declared without being filled, and up to the output all else is filled
  have hall := (Draft.continues_of_declareAll hinputs).trans hbefore
  have hout : outWire ∉ d₁.wires := hall.outWire_notMem (by decide)
  have hwires : d'.wires = (oneWire :: c.inputs) ++ (before ++ outWire :: after) := by
    rw [hafter.wires, Draft.addOut, hall.wires]
    simp
  have hlen : (oneWire :: c.inputs).length = c.inputs.length + 1 := rfl
  have hdrop : d'.wires.drop (c.inputs.length + 1) = before ++ outWire :: after := by
    rw [hwires, ← hlen, List.drop_left]
  refine ⟨rfl, ?_, ?_, ?_, ?_, ?_⟩
  · show d'.wires.take _ = _
    rw [hwires, ← hlen, List.take_left]
  · show _ ⊆ d'.wires.drop _
    rw [hdrop, List.cons_subset]
    exact ⟨by simp, fun t ht ↦ List.mem_append_left _ (htargets ht)⟩
  · refine hafter.nodup ?_
    rw [Draft.addOut]
    refine (hall.nodup (by decide)).append (List.nodup_singleton _) ?_
    rwa [List.disjoint_singleton]
  · show c.inputs.length < d'.wires.length
    rw [hwires, List.length_append, hlen]
    omega
  · show (d'.gates.map _).Perm ((d'.wires.drop _).map _)
    obtain ⟨gs, hgs, hperm⟩ := hall.gates
    obtain ⟨gs', hgs', hperm'⟩ := hafter.gates
    rw [hdrop, hgs', Draft.addOut, hgs, List.nil_append, List.map_append, List.map_append]
    exact hperm.append hperm'

end SuccinctProof
