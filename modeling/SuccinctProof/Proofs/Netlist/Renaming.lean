import SuccinctProof.Proofs.Netlist.Validity

/-!
# Renaming the wires of a circuit

A circuit and the same circuit with other names for its wires are flattened in step. At each moment
the two drafts have as many wires, and their gates read and fill the same positions
(`Draft.Parallel`): a gate stands for one that has the same literals, reads the new names of the
names that the first one reads, and otherwise reads and fills the wires at the same positions
(`Operand.Twin`). The numbers of the auxiliary wires may differ, since each side passes over the
names that it finds taken, and play no part.

`Netlist.parallel_of_ofCircuit` says this of two circuits that are both accepted. Whether a circuit
is valid does not depend on names at all (`Circuit.Renames.isValid_iff`).
-/

namespace SuccinctProof

/-! ### Renaming -/

/-- An expression with other names for its wires. -/
def Expr.rename (ρ : String → String) : Expr → Expr
  | var name => var (ρ name)
  | lit value => lit value
  | binary op left right => binary op (left.rename ρ) (right.rename ρ)
  | pow base n => pow (base.rename ρ) n

/-- A statement with other names for its wires. -/
def Statement.rename (ρ : String → String) : Statement → Statement
  | assign target value => assign (ρ target) (value.rename ρ)
  | ret value => ret (value.rename ρ)

/-- An operand with another name for its wire. -/
def Operand.rename (ρ : String → String) : Operand → Operand
  | wire name => wire (ρ name)
  | lit value => lit value

namespace Circuit

/-- A circuit with other names for its wires. -/
def rename (ρ : String → String) (c : Circuit) : Circuit where
  inputs := c.inputs.map ρ
  body := c.body.map (Statement.rename ρ)

/-- The names that a circuit reads. -/
def reads (c : Circuit) : List String := c.body.flatMap (·.value.vars)

/-- Other names for the wires of a circuit: different ones for different wires, names that wires may
have for names that wires may have, and the built-in wires keep theirs.

A circuit can also declare what no wire may be called, such as the empty name, and is refused for it.
Giving it a name that a wire may have would repair the circuit, so this is no renaming. -/
structure Renames (ρ : String → String) (c : Circuit) : Prop where
  /-- The built-in wires are not renamed. -/
  builtin : ρ oneWire = oneWire ∧ ρ outWire = outWire
  /-- Different names stay different. -/
  injOn : ∀ name ∈ c.defined ++ c.reads, ∀ name' ∈ c.defined ++ c.reads, ρ name = ρ name' →
    name = name'
  /-- What may be declared stays so. -/
  isWireName : ∀ name ∈ c.declared, isWireName (ρ name) = isWireName name

end Circuit

section Syntax

variable {ρ : String → String}

theorem Expr.operand?_rename (e : Expr) :
    (e.rename ρ).operand? = e.operand?.map (Operand.rename ρ) := by
  cases e <;> rfl

theorem Expr.vars_rename (e : Expr) : (e.rename ρ).vars = e.vars.map ρ := by
  induction e with
  | var name => rfl
  | lit value => rfl
  | binary op l r ihl ihr => rw [rename, vars, vars, ihl, ihr, List.map_append]
  | pow base n ih => rw [rename, vars, vars, ih]

theorem Expr.isFlattenable_rename (e : Expr) : (e.rename ρ).IsFlattenable ↔ e.IsFlattenable := by
  induction e with
  | var name => rfl
  | lit value => rfl
  | binary op l r ihl ihr => exact and_congr ihl ihr
  | pow base n ih =>
    rw [rename, IsFlattenable, IsFlattenable, operand?_rename, Ne, Option.map_eq_none_iff]

theorem Statement.value_rename (s : Statement) : (s.rename ρ).value = s.value.rename ρ := by
  cases s <;> rfl

theorem targets_rename (body : List Statement) :
    Draft.targets (body.map (Statement.rename ρ)) = (Draft.targets body).map ρ := by
  induction body with
  | nil => rfl
  | cons s rest ih =>
    cases s with
    | assign target value => exact congrArg (ρ target :: ·) ih
    | ret value => exact ih

theorem returnsLast_rename (body : List Statement) :
    ReturnsLast (body.map (Statement.rename ρ)) ↔ ReturnsLast body := by
  induction body with
  | nil => rfl
  | cons s rest ih =>
    cases s with
    | assign target value => exact ih
    | ret value => exact List.map_eq_nil_iff

namespace Circuit

variable {c : Circuit}

theorem declared_rename : (c.rename ρ).declared = c.declared.map ρ := by
  rw [declared, declared, List.map_append, ← targets_rename]
  rfl

theorem reads_rename : (c.rename ρ).reads = c.reads.map ρ := by
  rw [reads, reads, rename, List.flatMap_map, List.map_flatMap]
  simp only [Statement.value_rename, Expr.vars_rename]

theorem Renames.defined_rename (h : c.Renames ρ) : (c.rename ρ).defined = c.defined.map ρ := by
  rw [defined, defined, declared_rename, List.map_cons, List.map_cons, h.builtin.1, h.builtin.2]

theorem Renames.injOn_declared (h : c.Renames ρ) : ∀ name ∈ c.declared, ∀ name' ∈ c.declared,
    ρ name = ρ name' → name = name' := by
  have hmem : ∀ name ∈ c.declared, name ∈ c.defined ++ c.reads := fun name hname ↦
    List.mem_append_left _ (List.mem_cons_of_mem _ (List.mem_cons_of_mem _ hname))
  exact fun name hname name' hname' ↦ h.injOn name (hmem name hname) name' (hmem name' hname')

/-- A name that is read is defined on both sides or on neither. -/
theorem Renames.mem_defined_iff (h : c.Renames ρ) {name : String} (hname : name ∈ c.reads) :
    ρ name ∈ (c.rename ρ).defined ↔ name ∈ c.defined := by
  rw [h.defined_rename]
  constructor
  · intro hmem
    obtain ⟨other, hother, heq⟩ := List.mem_map.1 hmem
    have hsame := h.injOn other (List.mem_append_left _ hother) name
      (List.mem_append_right _ hname) heq
    rwa [← hsame]
  · exact List.mem_map_of_mem

/-- **Validity does not depend on names.** -/
theorem Renames.isValid_iff (h : c.Renames ρ) : (c.rename ρ).IsValid ↔ c.IsValid := by
  have hflat : (∀ s ∈ (c.rename ρ).body, s.value.IsFlattenable) ↔
      ∀ s ∈ c.body, s.value.IsFlattenable := by
    simp only [rename, List.forall_mem_map, Statement.value_rename, Expr.isFlattenable_rename]
  have hname : (∀ name ∈ (c.rename ρ).declared, SuccinctProof.isWireName name = true) ↔
      ∀ name ∈ c.declared, SuccinctProof.isWireName name = true := by
    rw [declared_rename, List.forall_mem_map]
    exact forall₂_congr fun name hname ↦ by rw [h.isWireName name hname]
  have hnodup : (c.rename ρ).declared.Nodup ↔ c.declared.Nodup := by
    rw [declared_rename]
    exact ⟨List.Nodup.of_map ρ, fun hc ↦ List.Nodup.map_on h.injOn_declared hc⟩
  exact ⟨fun ⟨h₁, h₂, h₃, h₄⟩ ↦ ⟨hname.1 h₁, hnodup.1 h₂, hflat.1 h₃, (returnsLast_rename _).1 h₄⟩,
    fun ⟨h₁, h₂, h₃, h₄⟩ ↦ ⟨hname.2 h₁, hnodup.2 h₂, hflat.2 h₃, (returnsLast_rename _).2 h₄⟩⟩

end Circuit

end Syntax

/-! ### Two drafts in step -/

/-- Operands of two sides that stand for one another: equal literals, a name that is read and its
new name, or the names of two wires at one position. -/
inductive Operand.Twin (ρ : String → String) (reads : List String)
    (pairs : List (String × String)) : Operand → Operand → Prop
  | lit (value : Int) : Twin ρ reads pairs (.lit value) (.lit value)
  | read {name : String} : name ∈ reads → Twin ρ reads pairs (.wire name) (.wire (ρ name))
  | pair {name name' : String} : (name, name') ∈ pairs →
      Twin ρ reads pairs (.wire name) (.wire name')

/-- Gates of two sides that stand for one another. -/
structure Gate.Twin (ρ : String → String) (reads : List String) (pairs : List (String × String))
    (g g' : Gate) : Prop where
  op_eq : g'.op = g.op
  left : Operand.Twin ρ reads pairs g.left g'.left
  right : Operand.Twin ρ reads pairs g.right g'.right
  target : Operand.Twin ρ reads pairs g.target g'.target

section Twin

variable {ρ : String → String} {reads : List String} {pairs pairs' : List (String × String)}

theorem Operand.Twin.mono {o o' : Operand} (h : o.Twin ρ reads pairs o') (hsub : pairs ⊆ pairs') :
    o.Twin ρ reads pairs' o' := by
  cases h with
  | lit value => exact .lit value
  | read hname => exact .read hname
  | pair hmem => exact .pair (hsub hmem)

theorem Gate.Twin.mono {g g' : Gate} (h : g.Twin ρ reads pairs g') (hsub : pairs ⊆ pairs') :
    g.Twin ρ reads pairs' g' :=
  ⟨h.op_eq, h.left.mono hsub, h.right.mono hsub, h.target.mono hsub⟩

/-- An expression that is an operand is the same operand with its new name. -/
theorem Expr.twin_rename {e : Expr} {o : Operand} (ho : e.operand? = some o)
    (hreads : e.vars ⊆ reads) : o.Twin ρ reads pairs (o.rename ρ) := by
  cases e with
  | var name =>
    obtain rfl := Option.some.inj ho
    exact .read (hreads (List.mem_singleton_self name))
  | lit value =>
    obtain rfl := Option.some.inj ho
    exact .lit value
  | binary op l r => exact nomatch ho
  | pow base n => exact nomatch ho

end Twin

namespace Draft

/-- The wires of two drafts, side by side. -/
def pairs (d d' : Draft) : List (String × String) := d.wires.zip d'.wires

/-- Two drafts that have come as far as each other. -/
structure Parallel (ρ : String → String) (reads : List String) (d d' : Draft) : Prop where
  /-- There are as many wires. -/
  length_eq : d.wires.length = d'.wires.length
  /-- The gates stand for one another. -/
  gates : List.Forall₂ (Gate.Twin ρ reads (d.pairs d')) d.gates d'.gates

variable {ρ : String → String} {reads : List String} {d d' d₁ d₁' : Draft}

theorem pairs_addWire (h : d.wires.length = d'.wires.length) (name name' : String) (k k' : ℕ) :
    pairs { d with wires := d.wires ++ [name], counter := k }
      { d' with wires := d'.wires ++ [name'], counter := k' } = d.pairs d' ++ [(name, name')] := by
  rw [pairs, pairs, List.zip_append h]
  rfl

namespace Parallel

/-- Two drafts stay in step when both add a wire. -/
theorem addWire (h : Parallel ρ reads d d') (name name' : String) (k k' : ℕ) :
    Parallel ρ reads { d with wires := d.wires ++ [name], counter := k }
      { d' with wires := d'.wires ++ [name'], counter := k' } where
  length_eq := by rw [List.length_append, List.length_append, h.length_eq]; rfl
  gates := by
    rw [pairs_addWire h.length_eq]
    exact h.gates.imp fun _ _ htwin ↦ htwin.mono (List.subset_append_left _ _)

/-- Two drafts stay in step when both emit a gate. -/
theorem emit (h : Parallel ρ reads d d') (op : ArithOp) {left left' right right' : Operand}
    {target target' : String} (hleft : left.Twin ρ reads (d.pairs d') left')
    (hright : right.Twin ρ reads (d.pairs d') right') (htarget : (target, target') ∈ d.pairs d') :
    Parallel ρ reads (d.emit op left right target) (d'.emit op left' right' target') where
  length_eq := h.length_eq
  gates := List.rel_append h.gates (.cons ⟨rfl, hleft, hright, .pair htarget⟩ .nil)

/-- Two drafts stay in step when both allocate an auxiliary wire, whatever its names, and the two
wires stand at one position. -/
theorem allocate (h : Parallel ρ reads d d') :
    Parallel ρ reads d.allocate.2 d'.allocate.2 ∧
      d.pairs d' ⊆ d.allocate.2.pairs d'.allocate.2 ∧
      (d.allocate.1, d'.allocate.1) ∈ d.allocate.2.pairs d'.allocate.2 := by
  have hpairs : d.allocate.2.pairs d'.allocate.2 = d.pairs d' ++ [(d.allocate.1, d'.allocate.1)] :=
    pairs_addWire h.length_eq ..
  rw [hpairs]
  exact ⟨h.addWire .., List.subset_append_left _ _,
    List.mem_append_right _ (List.mem_singleton_self _)⟩

/-- **Powers of two operands that stand for one another are in step.** -/
theorem power {base base' : Operand} (n : ℕ) : ∀ {d d' : Draft} {target target' : String},
    Parallel ρ reads d d' → base.Twin ρ reads (d.pairs d') base' →
      (target, target') ∈ d.pairs d' →
      Parallel ρ reads (d.power base n target) (d'.power base' n target') ∧
        d.pairs d' ⊆ (d.power base n target).pairs (d'.power base' n target') := by
  induction n using Nat.strongRecOn with
  | ind n ih =>
    intro d d' target target' h hbase htarget
    match n with
    | 0 => exact ⟨h.emit .mul hbase (.lit 1) htarget, List.Subset.refl _⟩
    | 1 => exact ⟨h.emit .mul hbase (.lit 1) htarget, List.Subset.refl _⟩
    | 2 => exact ⟨h.emit .mul hbase hbase htarget, List.Subset.refl _⟩
    | n + 3 =>
      obtain ⟨hallocate, hsub, haux⟩ := h.allocate
      have hemit := hallocate.emit .mul (.pair haux) (hbase.mono hsub) (hsub htarget)
      obtain ⟨hpower, hsub'⟩ := ih (n + 2) (by omega) hemit (hbase.mono hsub) haux
      exact ⟨hpower, List.Subset.trans hsub hsub'⟩

/-- The sides of two sums or products are in step: they stand for one another, and are given
auxiliary wires at one position or none at all. -/
theorem side (h : Parallel ρ reads d d') {e : Expr} (hreads : e.vars ⊆ reads) :
    Parallel ρ reads (d.side e).2.2 (d'.side (e.rename ρ)).2.2 ∧
      d.pairs d' ⊆ (d.side e).2.2.pairs (d'.side (e.rename ρ)).2.2 ∧
      (d.side e).1.Twin ρ reads ((d.side e).2.2.pairs (d'.side (e.rename ρ)).2.2)
        (d'.side (e.rename ρ)).1 ∧
      Option.Rel (fun aux aux' ↦ (aux, aux') ∈ (d.side e).2.2.pairs (d'.side (e.rename ρ)).2.2)
        (d.side e).2.1 (d'.side (e.rename ρ)).2.1 := by
  rw [Draft.side, Draft.side, Expr.operand?_rename]
  cases ho : e.operand? with
  | some o => exact ⟨h, List.Subset.refl _, Expr.twin_rename ho hreads, .none⟩
  | none =>
    obtain ⟨hallocate, hsub, haux⟩ := h.allocate
    exact ⟨hallocate, hsub, .pair haux, .some haux⟩

/-- Filling, for a side whose expression is known to keep two drafts in step. -/
theorem fill {e : Expr} {aux? aux?' : Option String} {allocated : List (String × String)}
    (h : Parallel ρ reads d d')
    (ih : ∀ {target target' d d' d₁ d₁'}, Parallel ρ reads d d' → (target, target') ∈ d.pairs d' →
      flatten target e d = .ok d₁ → flatten target' (e.rename ρ) d' = .ok d₁' →
      Parallel ρ reads d₁ d₁' ∧ d.pairs d' ⊆ d₁.pairs d₁')
    (haux : Option.Rel (fun aux aux' ↦ (aux, aux') ∈ allocated) aux? aux?')
    (hallocated : allocated ⊆ d.pairs d')
    (hd : Draft.fill aux? e d = .ok d₁) (hd' : Draft.fill aux?' (e.rename ρ) d' = .ok d₁') :
    Parallel ρ reads d₁ d₁' ∧ d.pairs d' ⊆ d₁.pairs d₁' := by
  cases haux with
  | none =>
    obtain rfl := Except.ok.inj hd
    obtain rfl := Except.ok.inj hd'
    exact ⟨h, List.Subset.refl _⟩
  | some haux => exact ih h (hallocated haux) hd hd'

/-- **An expression and its renaming are flattened in step.** -/
theorem flatten {e : Expr} (hreads : e.vars ⊆ reads) :
    ∀ {target target' : String} {d d' d₁ d₁' : Draft}, Parallel ρ reads d d' →
      (target, target') ∈ d.pairs d' → Draft.flatten target e d = .ok d₁ →
      Draft.flatten target' (e.rename ρ) d' = .ok d₁' →
      Parallel ρ reads d₁ d₁' ∧ d.pairs d' ⊆ d₁.pairs d₁' := by
  induction e with
  | var name =>
    intro target target' d d' d₁ d₁' h htarget hd hd'
    rw [Expr.rename, Draft.flatten] at hd'
    rw [Draft.flatten] at hd
    obtain rfl := Except.ok.inj hd
    obtain rfl := Except.ok.inj hd'
    exact h.power 1 (.read (hreads (List.mem_singleton_self name))) htarget
  | lit value =>
    intro target target' d d' d₁ d₁' h htarget hd hd'
    rw [Expr.rename, Draft.flatten] at hd'
    rw [Draft.flatten] at hd
    obtain rfl := Except.ok.inj hd
    obtain rfl := Except.ok.inj hd'
    exact h.power 1 (.lit value) htarget
  | binary op l r ihl ihr =>
    intro target target' d d' d₁ d₁' h htarget hd hd'
    obtain ⟨hreadsL, hreadsR⟩ := List.append_subset.1 hreads
    rw [Expr.rename, flatten_binary] at hd'
    rw [flatten_binary] at hd
    obtain ⟨d₂, hleft, hright⟩ := bind_eq_ok_iff.1 hd
    obtain ⟨d₂', hleft', hright'⟩ := bind_eq_ok_iff.1 hd'
    obtain ⟨hsideL, hsubL, htwinL, hauxL⟩ := h.side hreadsL
    obtain ⟨hsideR, hsubR, htwinR, hauxR⟩ := hsideL.side hreadsR
    have hemit := hsideR.emit op (htwinL.mono hsubR) htwinR (hsubR (hsubL htarget))
    obtain ⟨hfillL, hsubL'⟩ := hemit.fill (ihl hreadsL) hauxL hsubR hleft hleft'
    obtain ⟨hfillR, hsubR'⟩ := hfillL.fill (ihr hreadsR) hauxR hsubL' hright hright'
    exact ⟨hfillR, fun _ hmem ↦ hsubR' (hsubL' (hsubR (hsubL hmem)))⟩
  | pow base n =>
    intro target target' d d' d₁ d₁' h htarget hd hd'
    rw [flatten_pow_eq_ok_iff] at hd
    rw [Expr.rename, flatten_pow_eq_ok_iff, Expr.operand?_rename] at hd'
    obtain ⟨o, ho, -, rfl⟩ := hd
    obtain ⟨o', ho', -, rfl⟩ := hd'
    rw [ho, Option.map_some] at ho'
    obtain rfl := Option.some.inj ho'
    exact h.power n.toNat (Expr.twin_rename ho hreads) htarget

/-- **Statements and their renamings run in step**, and each wire that they define stands beside the
one with its new name. -/
theorem run {body : List Statement} (hreads : ∀ s ∈ body, s.value.vars ⊆ reads) :
    ∀ {d d' d₁ d₁' : Draft}, Parallel ρ reads d d' → Draft.run body d = .ok d₁ →
      Draft.run (body.map (Statement.rename ρ)) d' = .ok d₁' →
      Parallel ρ reads d₁ d₁' ∧ d.pairs d' ⊆ d₁.pairs d₁' ∧ (outWire, outWire) ∈ d₁.pairs d₁' ∧
        ∀ t ∈ targets body, (t, ρ t) ∈ d₁.pairs d₁' := by
  induction body with
  | nil =>
    intro d d' d₁ d₁' h hd hd'
    cases hd
  | cons s rest ih =>
    intro d d' d₁ d₁' h hd hd'
    have hreadsHead : s.value.vars ⊆ reads := hreads s List.mem_cons_self
    cases s with
    | assign target value =>
      obtain ⟨d₂, hdeclare, d₃, hflatten, hrun⟩ := run_assign_eq_ok_iff.1 hd
      obtain ⟨d₂', hdeclare', d₃', hflatten', hrun'⟩ := run_assign_eq_ok_iff.1 hd'
      obtain ⟨-, -, rfl⟩ := declare_eq_ok_iff.1 hdeclare
      obtain ⟨-, -, rfl⟩ := declare_eq_ok_iff.1 hdeclare'
      have hadd := h.addWire target (ρ target) d.counter d'.counter
      have hpairs := pairs_addWire h.length_eq target (ρ target) d.counter d'.counter
      have htarget := hpairs ▸ List.mem_append_right _ (List.mem_singleton_self (target, ρ target))
      obtain ⟨hflat, hsub⟩ := hadd.flatten hreadsHead htarget hflatten hflatten'
      obtain ⟨hrest, hsub', hout, htargets⟩ :=
        ih (fun s hs ↦ hreads s (List.mem_cons_of_mem _ hs)) hflat hrun hrun'
      refine ⟨hrest, fun _ hmem ↦ hsub' (hsub (hpairs ▸ List.mem_append_left _ hmem)), hout, ?_⟩
      exact List.forall_mem_cons.2 ⟨hsub' (hsub htarget), htargets⟩
    | ret value =>
      obtain ⟨rfl, hflatten⟩ := run_ret_eq_ok_iff.1 hd
      obtain ⟨-, hflatten'⟩ := run_ret_eq_ok_iff.1 hd'
      have hadd := h.addWire outWire outWire d.counter d'.counter
      have hpairs := pairs_addWire h.length_eq outWire outWire d.counter d'.counter
      have hout := hpairs ▸ List.mem_append_right _ (List.mem_singleton_self (outWire, outWire))
      obtain ⟨hflat, hsub⟩ := hadd.flatten hreadsHead hout hflatten hflatten'
      exact ⟨hflat, fun _ hmem ↦ hsub (hpairs ▸ List.mem_append_left _ hmem), hsub hout,
        List.forall_mem_nil _⟩

end Parallel

end Draft

/-! ### Two netlists in step -/

/-- Two netlists of the same size whose gates stand for one another, and in which the wires that a
circuit defines stand beside those with their new names. -/
structure Netlist.Parallel (ρ : String → String) (c : Circuit) (n n' : Netlist) : Prop where
  /-- There are as many inputs. -/
  numInputs_eq : n.numInputs = n'.numInputs
  /-- There are as many wires. -/
  numWires_eq : n.numWires = n'.numWires
  /-- The gates stand for one another. -/
  gates : List.Forall₂ (Gate.Twin ρ c.reads (n.wires.zip n'.wires)) n.gates n'.gates
  /-- The wires of the circuit have the same positions. -/
  defined : ∀ name ∈ c.defined, (name, ρ name) ∈ n.wires.zip n'.wires

/-- **A circuit and its renaming are flattened in step.** -/
theorem Netlist.parallel_of_ofCircuit {ρ : String → String} {c : Circuit} (hρ : c.Renames ρ)
    {n n' : Netlist} (hn : Netlist.ofCircuit c = .ok n)
    (hn' : Netlist.ofCircuit (c.rename ρ) = .ok n') : Netlist.Parallel ρ c n n' := by
  obtain ⟨-, -, d₁, hrun, rfl⟩ := ofCircuit_eq_ok_iff.1 hn
  obtain ⟨-, -, d₁', hrun', rfl⟩ := ofCircuit_eq_ok_iff.1 hn'
  have hreads : ∀ s ∈ c.body, s.value.vars ⊆ c.reads := fun s hs name hname ↦
    List.mem_flatMap.2 ⟨s, hs, hname⟩
  have hstart : Draft.Parallel ρ c.reads ⟨[], oneWire :: c.inputs, 0⟩
      ⟨[], oneWire :: c.inputs.map ρ, 0⟩ := ⟨by simp, .nil⟩
  obtain ⟨hparallel, hsub, hout, htargets⟩ := hstart.run hreads hrun hrun'
  -- the constant-one wire and the inputs stand side by side from the start
  have hpairs : Draft.pairs ⟨[], oneWire :: c.inputs, 0⟩ ⟨[], oneWire :: c.inputs.map ρ, 0⟩ =
      (oneWire, oneWire) :: c.inputs.map fun name ↦ (name, ρ name) := by
    rw [Draft.pairs, List.zip_cons_cons, ← List.zip_map', List.map_id']
  rw [hpairs] at hsub
  refine ⟨(List.length_map _).symm, hparallel.length_eq, hparallel.gates, ?_⟩
  refine List.forall_mem_cons.2 ⟨?_, List.forall_mem_cons.2 ⟨?_, ?_⟩⟩
  · rw [hρ.builtin.1]
    exact hsub List.mem_cons_self
  · rw [hρ.builtin.2]
    exact hout
  · refine List.forall_mem_append.2 ⟨fun name hname ↦ ?_, htargets⟩
    exact hsub (List.mem_cons_of_mem _ (List.mem_map_of_mem hname))

end SuccinctProof
