import SuccinctProof.Proofs.Netlist.Meaning

/-!
# Which circuits are accepted

A circuit is *valid* (`Circuit.IsValid`) when nothing is wrong with it, whatever its wires are
called: its names may be names of wires and no two of its wires share one, its powers have bases and
exponents that can be written out, and its last statement, and no other, returns.

Only valid circuits are accepted (`Circuit.isValid_of_ofCircuit`). A valid one is accepted too, with
one exception: an auxiliary wire may have been given the name of a target before that target is
declared. All the wires that a circuit has not defined itself are auxiliary
(`Circuit.defined_or_aux_of_mem_wires`).
-/

namespace SuccinctProof

/-! ### Valid circuits -/

/-- Each power, at any depth, has a base that is an operand and a positive exponent. -/
def Expr.IsFlattenable : Expr → Prop
  | var _ | lit _ => True
  | binary _ left right => left.IsFlattenable ∧ right.IsFlattenable
  | pow base n => base.operand? ≠ none ∧ 1 ≤ n

/-- The last statement returns, and no other does. -/
def ReturnsLast : List Statement → Prop
  | [] => False
  | .assign _ _ :: rest => ReturnsLast rest
  | .ret _ :: rest => rest = []

namespace Circuit

/-- The names that a circuit gives to its wires. -/
def declared (c : Circuit) : List String := c.inputs ++ Draft.targets c.body

/-- The names that stand for wires of a circuit: those of the built-in wires, and those that it
declares. -/
def defined (c : Circuit) : List String := oneWire :: outWire :: c.declared

/-- A circuit that nothing is wrong with. -/
structure IsValid (c : Circuit) : Prop where
  /-- The names may be names of wires. -/
  isWireName : ∀ name ∈ c.declared, isWireName name = true
  /-- No two wires share a name. -/
  nodup : c.declared.Nodup
  /-- The powers can be written out. -/
  flattenable : ∀ s ∈ c.body, s.value.IsFlattenable
  /-- There is one return statement, at the end. -/
  returnsLast : ReturnsLast c.body

end Circuit

namespace Draft

/-! ### Auxiliary wires are the only ones that expressions add -/

/-- The wires of the second draft are those of the first, and after them auxiliary ones. -/
def AddsAux (d d' : Draft) : Prop := ∃ ks : List ℕ, d'.wires = d.wires ++ ks.map auxName

protected theorem AddsAux.refl (d : Draft) : d.AddsAux d := ⟨[], (List.append_nil _).symm⟩

protected theorem AddsAux.trans {d d' d'' : Draft} (h : d.AddsAux d') (h' : d'.AddsAux d'') :
    d.AddsAux d'' := by
  obtain ⟨ks, hks⟩ := h
  obtain ⟨ks', hks'⟩ := h'
  exact ⟨ks ++ ks', by rw [hks', hks, List.map_append, List.append_assoc]⟩

theorem AddsAux.mem_or_eq {d d' : Draft} (h : d.AddsAux d') {name : String}
    (hname : name ∈ d'.wires) : name ∈ d.wires ∨ ∃ k, name = auxName k := by
  obtain ⟨ks, hks⟩ := h
  rw [hks, List.mem_append, List.mem_map] at hname
  exact hname.imp_right fun ⟨k, _, hk⟩ ↦ ⟨k, hk.symm⟩

theorem addsAux_emit (d : Draft) (op : ArithOp) (left right : Operand) (target : String) :
    d.AddsAux (d.emit op left right target) := .refl d

theorem addsAux_allocate (d : Draft) : d.AddsAux d.allocate.2 := ⟨[_], rfl⟩

theorem addsAux_power (base : Operand) (n : ℕ) : ∀ (d : Draft) (target : String),
    d.AddsAux (d.power base n target) := by
  induction n using Nat.strongRecOn with
  | ind n ih =>
    intro d target
    match n with
    | 0 => exact addsAux_emit ..
    | 1 => exact addsAux_emit ..
    | 2 => exact addsAux_emit ..
    | n + 3 =>
      exact ((addsAux_allocate d).trans (addsAux_emit ..)).trans (ih (n + 2) (by omega) _ _)

theorem addsAux_side (d : Draft) (e : Expr) : d.AddsAux (d.side e).2.2 := by
  rw [side]
  split
  · exact .refl d
  · exact addsAux_allocate d

theorem addsAux_of_fill {aux? : Option String} {e : Expr} {d d' : Draft}
    (ih : ∀ {target d d'}, flatten target e d = .ok d' → AddsAux d d')
    (h : fill aux? e d = .ok d') : d.AddsAux d' := by
  cases aux? with
  | none => exact Except.ok.inj h ▸ .refl d
  | some aux => exact ih h

theorem addsAux_of_flatten {e : Expr} : ∀ {target : String} {d d' : Draft},
    flatten target e d = .ok d' → d.AddsAux d' := by
  induction e with
  | var name =>
    intro target d d' h
    rw [flatten] at h
    exact Except.ok.inj h ▸ addsAux_power ..
  | lit value =>
    intro target d d' h
    rw [flatten] at h
    exact Except.ok.inj h ▸ addsAux_power ..
  | binary op l r ihl ihr =>
    intro target d d' h
    rw [flatten_binary] at h
    obtain ⟨d₁, hleft, hright⟩ := bind_eq_ok_iff.1 h
    have hsides := (addsAux_side d l).trans (addsAux_side _ r)
    exact ((hsides.trans (addsAux_emit ..)).trans (addsAux_of_fill ihl hleft)).trans
      (addsAux_of_fill ihr hright)
  | pow base n =>
    intro target d d' h
    obtain ⟨o, -, -, rfl⟩ := flatten_pow_eq_ok_iff.1 h
    exact addsAux_power ..

/-! ### Which expressions can be flattened -/

theorem isFlattenable_of_operand? {e : Expr} {o : Operand} (h : e.operand? = some o) :
    e.IsFlattenable := by
  cases e with
  | var name => trivial
  | lit value => trivial
  | binary op l r => exact nomatch h
  | pow base n => exact nomatch h

/-- A side can be filled when its expression can be flattened, and operands always can. -/
theorem exists_fill_iff {e : Expr}
    (ih : ∀ {target d}, (∃ d', flatten target e d = .ok d') ↔ e.IsFlattenable) (d d₁ : Draft) :
    (∃ d', fill (d.side e).2.1 e d₁ = .ok d') ↔ e.IsFlattenable := by
  rw [side]
  split
  · next operand hoperand =>
    exact ⟨fun _ ↦ isFlattenable_of_operand? hoperand, fun _ ↦ ⟨d₁, rfl⟩⟩
  · exact ih

/-- **Whether an expression can be flattened does not depend on names**, nor on the draft. -/
theorem exists_flatten_iff {e : Expr} : ∀ {target : String} {d : Draft},
    (∃ d', flatten target e d = .ok d') ↔ e.IsFlattenable := by
  induction e with
  | var name => exact ⟨fun _ ↦ trivial, fun _ ↦ ⟨_, by rw [flatten]⟩⟩
  | lit value => exact ⟨fun _ ↦ trivial, fun _ ↦ ⟨_, by rw [flatten]⟩⟩
  | binary op l r ihl ihr =>
    intro target d
    rw [flatten_binary, Expr.IsFlattenable]
    constructor
    · rintro ⟨d', h⟩
      obtain ⟨d₁, hleft, hright⟩ := bind_eq_ok_iff.1 h
      exact ⟨(exists_fill_iff ihl _ _).1 ⟨d₁, hleft⟩, (exists_fill_iff ihr _ _).1 ⟨d', hright⟩⟩
    · rintro ⟨hl, hr⟩
      obtain ⟨d₁, hleft⟩ := (exists_fill_iff ihl _ _).2 hl
      obtain ⟨d', hright⟩ := (exists_fill_iff ihr _ d₁).2 hr
      exact ⟨d', bind_eq_ok_iff.2 ⟨d₁, hleft, hright⟩⟩
  | pow base n =>
    intro target d
    simp only [flatten_pow_eq_ok_iff, Expr.IsFlattenable, Option.ne_none_iff_exists']
    constructor
    · rintro ⟨_, o, ho, hn, -⟩
      exact ⟨⟨o, ho⟩, hn⟩
    · rintro ⟨⟨o, ho⟩, hn⟩
      exact ⟨_, o, ho, hn, rfl⟩

/-! ### Runs -/

/-- **Declaring several names** succeeds when they may be names of wires, are distinct and new. -/
theorem declareAll_eq_ok_iff {names : List String} {d d' : Draft} :
    names.foldlM declare d = .ok d' ↔ (∀ name ∈ names, SuccinctProof.isWireName name = true) ∧
      names.Nodup ∧ (∀ name ∈ names, name ∉ d.wires) ∧
      d' = { d with wires := d.wires ++ names } := by
  induction names generalizing d with
  | nil =>
    rw [List.foldlM_nil, pure_eq_ok_iff]
    constructor
    · rintro rfl
      exact ⟨fun _ h ↦ (nomatch h), List.nodup_nil, fun _ h ↦ (nomatch h), by rw [List.append_nil]⟩
    · rintro ⟨-, -, -, rfl⟩
      rw [List.append_nil]
  | cons name names ih =>
    rw [List.foldlM_cons, bind_eq_ok_iff]
    simp only [declare_eq_ok_iff, ih, List.forall_mem_cons, List.nodup_cons]
    constructor
    · rintro ⟨_, ⟨hname, hnew, rfl⟩, hnames, hnodup, hnews, rfl⟩
      refine ⟨⟨hname, hnames⟩, ⟨fun hmem ↦ ?_, hnodup⟩, ⟨hnew, fun other hother hmem ↦ ?_⟩, ?_⟩
      · exact hnews name hmem (List.mem_append_right _ (List.mem_singleton_self name))
      · exact hnews other hother (List.mem_append_left _ hmem)
      · rw [List.append_assoc, List.singleton_append]
    · rintro ⟨⟨hname, hnames⟩, ⟨hnotMem, hnodup⟩, ⟨hnew, hnews⟩, rfl⟩
      refine ⟨_, ⟨hname, hnew, rfl⟩, hnames, hnodup, fun other hother hmem ↦ ?_, ?_⟩
      · rcases List.mem_append.1 hmem with hmem | heq
        · exact hnews other hother hmem
        · exact hnotMem (List.mem_singleton.1 heq ▸ hother)
      · rw [List.append_assoc, List.singleton_append]

/-- The wires after an assignment: those before it, its target, and auxiliary ones. -/
theorem mem_wires_of_assign {target : String} {value : Expr} {d d' : Draft}
    (h : flatten target value { d with wires := d.wires ++ [target] } = .ok d') {name : String}
    (hname : name ∈ d'.wires) : name ∈ d.wires ∨ name = target ∨ ∃ k, name = auxName k := by
  rcases (addsAux_of_flatten h).mem_or_eq hname with hmem | haux
  · rw [List.mem_append, List.mem_singleton] at hmem
    exact hmem.imp_right .inl
  · exact .inr (.inr haux)

/-- What a run says about its statements. -/
theorem valid_of_run {body : List Statement} {d d' : Draft} (h : run body d = .ok d') :
    (∀ t ∈ targets body, SuccinctProof.isWireName t = true) ∧ (targets body).Nodup ∧
      (∀ t ∈ targets body, t ∉ d.wires) ∧ (∀ s ∈ body, s.value.IsFlattenable) ∧
      ReturnsLast body := by
  induction body generalizing d with
  | nil => cases h
  | cons s rest ih =>
    cases s with
    | assign target value =>
      obtain ⟨d₁, hdeclare, d₂, hflatten, hrun⟩ := run_assign_eq_ok_iff.1 h
      obtain ⟨hname, hnew, rfl⟩ := declare_eq_ok_iff.1 hdeclare
      obtain ⟨ks, hks⟩ := addsAux_of_flatten hflatten
      obtain ⟨hnames, hnodup, hnews, hflat, hreturns⟩ := ih hrun
      have hnotMem : ∀ t ∈ targets rest, t ∉ d.wires ++ [target] := fun t ht hmem ↦
        hnews t ht (hks ▸ List.mem_append_left _ hmem)
      refine ⟨List.forall_mem_cons.2 ⟨hname, hnames⟩, List.nodup_cons.2 ⟨fun hmem ↦ ?_, hnodup⟩,
        List.forall_mem_cons.2 ⟨hnew, fun t ht hmem ↦ ?_⟩,
        List.forall_mem_cons.2 ⟨exists_flatten_iff.1 ⟨d₂, hflatten⟩, hflat⟩, hreturns⟩
      · exact hnotMem target hmem (List.mem_append_right _ (List.mem_singleton_self target))
      · exact hnotMem t ht (List.mem_append_left _ hmem)
    | ret value =>
      obtain ⟨rfl, hflatten⟩ := run_ret_eq_ok_iff.1 h
      have hflat : ∀ s ∈ [Statement.ret value], s.value.IsFlattenable :=
        List.forall_mem_singleton.2 (exists_flatten_iff.1 ⟨d', hflatten⟩)
      exact ⟨List.forall_mem_nil _, List.nodup_nil, List.forall_mem_nil _, hflat, rfl⟩

/-- A run adds targets, the output wire and auxiliary wires. -/
theorem mem_wires_of_run {body : List Statement} {d d' : Draft} (h : run body d = .ok d')
    {name : String} (hname : name ∈ d'.wires) :
    name ∈ d.wires ∨ name = outWire ∨ name ∈ targets body ∨ ∃ k, name = auxName k := by
  induction body generalizing d with
  | nil => cases h
  | cons s rest ih =>
    cases s with
    | assign target value =>
      obtain ⟨d₁, hdeclare, d₂, hflatten, hrun⟩ := run_assign_eq_ok_iff.1 h
      obtain ⟨-, -, rfl⟩ := declare_eq_ok_iff.1 hdeclare
      rcases ih hrun with hmem | hout | hmem | haux
      · rcases mem_wires_of_assign hflatten hmem with hmem | rfl | haux
        · exact .inl hmem
        · exact .inr (.inr (.inl List.mem_cons_self))
        · exact .inr (.inr (.inr haux))
      · exact .inr (.inl hout)
      · exact .inr (.inr (.inl (List.mem_cons_of_mem _ hmem)))
      · exact .inr (.inr (.inr haux))
    | ret value =>
      obtain ⟨-, hflatten⟩ := run_ret_eq_ok_iff.1 h
      exact (mem_wires_of_assign hflatten hname).imp_right (·.imp_right .inr)

end Draft

/-! ### Circuits -/

/-- The inputs are declared when they may be names of wires and no two share one. -/
theorem Circuit.declareInputs_eq_ok_iff {c : Circuit} {d : Draft} :
    c.inputs.foldlM Draft.declare ⟨[], [oneWire], 0⟩ = .ok d ↔
      (∀ name ∈ c.inputs, isWireName name = true) ∧ c.inputs.Nodup ∧
        d = ⟨[], oneWire :: c.inputs, 0⟩ := by
  rw [Draft.declareAll_eq_ok_iff]
  constructor
  · rintro ⟨hnames, hnodup, -, hd⟩
    exact ⟨hnames, hnodup, hd⟩
  · rintro ⟨hnames, hnodup, hd⟩
    refine ⟨hnames, hnodup, fun name hname hmem ↦ ?_, hd⟩
    -- the constant-one wire has no name that could be declared
    obtain rfl := List.mem_singleton.1 hmem
    exact absurd (hnames _ hname) (by decide)

/-- **A circuit is accepted when its inputs are declared and its statements run.** -/
theorem Netlist.ofCircuit_eq_ok_iff {c : Circuit} {n : Netlist} :
    Netlist.ofCircuit c = .ok n ↔
      (∀ name ∈ c.inputs, isWireName name = true) ∧ c.inputs.Nodup ∧
        ∃ d, Draft.run c.body ⟨[], oneWire :: c.inputs, 0⟩ = .ok d ∧
          ⟨d.gates, d.wires, c.inputs.length⟩ = n := by
  simp only [Netlist.ofCircuit, bind_eq_ok_iff, Circuit.declareInputs_eq_ok_iff, pure_eq_ok_iff]
  constructor
  · rintro ⟨_, ⟨hnames, hnodup, rfl⟩, d, hrun, heq⟩
    exact ⟨hnames, hnodup, d, hrun, heq⟩
  · rintro ⟨hnames, hnodup, d, hrun, heq⟩
    exact ⟨_, ⟨hnames, hnodup, rfl⟩, d, hrun, heq⟩

namespace Circuit

variable {c : Circuit}

/-- **Only valid circuits are accepted.** -/
theorem isValid_of_ofCircuit {n : Netlist} (h : Netlist.ofCircuit c = .ok n) : c.IsValid := by
  obtain ⟨hnames, hnodup, d, hrun, -⟩ := Netlist.ofCircuit_eq_ok_iff.1 h
  obtain ⟨hnames', hnodup', hnew, hflat, hreturns⟩ := Draft.valid_of_run hrun
  refine ⟨List.forall_mem_append.2 ⟨hnames, hnames'⟩, hnodup.append hnodup' ?_, hflat, hreturns⟩
  exact fun name hname htarget ↦ hnew name htarget (List.mem_cons_of_mem _ hname)

/-- **Every wire is one that the circuit defines, or auxiliary.** -/
theorem defined_or_aux_of_mem_wires {n : Netlist} (h : Netlist.ofCircuit c = .ok n) {name : String}
    (hname : name ∈ n.wires) : name ∈ c.defined ∨ ∃ k, name = auxName k := by
  obtain ⟨-, -, d, hrun, rfl⟩ := Netlist.ofCircuit_eq_ok_iff.1 h
  simp only [defined, declared, List.mem_cons, List.mem_append]
  rcases Draft.mem_wires_of_run hrun hname with hmem | hout | hmem | haux
  · exact .inl ((List.mem_cons.1 hmem).imp_right fun hinput ↦ .inr (.inl hinput))
  · exact .inl (.inr (.inl hout))
  · exact .inl (.inr (.inr (.inr hmem)))
  · exact .inr haux

end Circuit

end SuccinctProof
