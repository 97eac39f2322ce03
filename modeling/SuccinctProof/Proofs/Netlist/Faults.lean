import Mathlib.Data.List.Duplicate
import SuccinctProof.Proofs.Netlist.Validity

/-!
# What a circuit is refused for

A circuit that is refused is told why, by a `CircuitFault`. `Circuit.HasFault` says of each fault
where in the circuit it would have to be found, without reference to how circuits are flattened: a
declared name that no wire may have, a name that is declared twice, a power at any depth that cannot
be written out, a return statement that is missing or not the last. A circuit is valid exactly when
it has none of these (`Circuit.isValid_iff_forall_not_hasFault`).

Flattening finds a fault only where there is one (`Circuit.hasFault_of_ofCircuit`), as long as no
target has a name that auxiliary wires can have. Under the same condition it accepts every circuit
without a fault, so it decides which circuits are valid (`Circuit.exists_ofCircuit_iff_of_targets`).
-/

namespace SuccinctProof

/-! ### Faults -/

namespace Expr

/-- The expressions that occur in an expression, itself included. -/
def subexprs : Expr → List Expr
  | var name => [var name]
  | lit value => [lit value]
  | binary op left right => binary op left right :: (left.subexprs ++ right.subexprs)
  | pow base n => pow base n :: base.subexprs

/-- What keeps an expression from being flattened. -/
inductive HasFault (e : Expr) : CircuitFault → Prop
  /-- A power of something that needs gates itself. -/
  | compoundBase {base : Expr} {n : ℤ} (h : pow base n ∈ e.subexprs)
      (hbase : base.operand? = none) : HasFault e .compoundBase
  /-- A power without factors. -/
  | exponentNotPositive {base : Expr} {n : ℤ} (h : pow base n ∈ e.subexprs) (hn : n < 1) :
      HasFault e (.exponentNotPositive n)

theorem self_mem_subexprs (e : Expr) : e ∈ e.subexprs := by
  cases e <;> exact List.mem_cons_self

/-- An operand has no parts. -/
theorem subexprs_of_operand? {e : Expr} {o : Operand} (h : e.operand? = some o) :
    e.subexprs = [e] := by
  cases e with
  | var name => rfl
  | lit value => rfl
  | binary op l r => exact nomatch h
  | pow base n => exact nomatch h

/-- The operands are the names and the literals. -/
theorem operand?_ne_none_iff {e : Expr} :
    e.operand? ≠ none ↔ (∃ name, e = var name) ∨ ∃ value, e = lit value := by
  cases e <;> simp [operand?]

/-- A part of one side is a part of the whole. -/
theorem HasFault.mono {e e' : Expr} (hsub : e.subexprs ⊆ e'.subexprs) {fault : CircuitFault}
    (h : e.HasFault fault) : e'.HasFault fault := by
  cases h with
  | compoundBase hmem hbase => exact .compoundBase (hsub hmem) hbase
  | exponentNotPositive hmem hn => exact .exponentNotPositive (hsub hmem) hn

/-- **An expression can be flattened when all its powers can**, at any depth. -/
theorem isFlattenable_iff_forall_pow {e : Expr} :
    e.IsFlattenable ↔ ∀ base n, pow base n ∈ e.subexprs → base.operand? ≠ none ∧ 1 ≤ n := by
  induction e with
  | var name =>
    refine iff_of_true trivial fun base n hmem ↦ ?_
    cases List.mem_singleton.1 hmem
  | lit value =>
    refine iff_of_true trivial fun base n hmem ↦ ?_
    cases List.mem_singleton.1 hmem
  | binary op l r ihl ihr =>
    rw [IsFlattenable, ihl, ihr, subexprs]
    constructor
    · rintro ⟨hl, hr⟩ base n hmem
      rcases List.mem_cons.1 hmem with heq | hmem
      · cases heq
      · exact (List.mem_append.1 hmem).elim (hl base n) (hr base n)
    · intro h
      exact ⟨fun base n hmem ↦ h base n (List.mem_cons_of_mem _ (List.mem_append_left _ hmem)),
        fun base n hmem ↦ h base n (List.mem_cons_of_mem _ (List.mem_append_right _ hmem))⟩
  | pow base n _ =>
    constructor
    · rintro ⟨hbase, hn⟩ base' n' hmem
      rcases List.mem_cons.1 hmem with heq | hmem
      · obtain ⟨rfl, rfl⟩ := Expr.pow.inj heq
        exact ⟨hbase, hn⟩
      -- the base is an operand, and no power occurs in an operand
      · obtain ⟨o, ho⟩ := Option.ne_none_iff_exists'.1 hbase
        rw [subexprs_of_operand? ho, List.mem_singleton] at hmem
        rw [← hmem] at ho
        cases ho
    · intro h
      exact h base n List.mem_cons_self

/-- An expression without a fault can be flattened, and no other. -/
theorem isFlattenable_iff_forall_not_hasFault {e : Expr} :
    e.IsFlattenable ↔ ∀ fault, ¬ e.HasFault fault := by
  rw [isFlattenable_iff_forall_pow]
  constructor
  · rintro h fault (⟨hmem, hbase⟩ | ⟨hmem, hn⟩)
    · exact (h _ _ hmem).1 hbase
    · exact absurd (h _ _ hmem).2 (by omega)
  · intro h base n hmem
    refine ⟨fun hbase ↦ h _ (.compoundBase hmem hbase), ?_⟩
    by_contra hn
    exact h _ (.exponentNotPositive hmem (by omega))

end Expr

/-- **What can be wrong with a circuit**, and where. -/
inductive Circuit.HasFault (c : Circuit) : CircuitFault → Prop
  /-- A declared name is empty or starts with the mark of the built-in wires. -/
  | invalidName {name : String} (h : name ∈ c.declared) (hname : isWireName name = false) :
      HasFault c (.invalidName name)
  /-- A name is declared twice. -/
  | reassigned {name : String} (h : List.Duplicate name c.declared) : HasFault c (.reassigned name)
  /-- The expression of a statement cannot be flattened. -/
  | value {s : Statement} {fault : CircuitFault} (hs : s ∈ c.body) (h : s.value.HasFault fault) :
      HasFault c fault
  /-- A statement follows a return statement. -/
  | afterReturn {before after : List Statement} {e : Expr} (h : c.body = before ++ .ret e :: after)
      (hafter : after ≠ []) : HasFault c .afterReturn
  /-- No statement returns. -/
  | missingReturn (h : ∀ e, .ret e ∉ c.body) : HasFault c .missingReturn

/-! ### Valid circuits have no fault -/

/-- The last statement returns, and no other does, when some statement returns and nothing follows
one that does. -/
theorem returnsLast_iff_forall {body : List Statement} :
    ReturnsLast body ↔ (∃ e, .ret e ∈ body) ∧
      ∀ before e after, body = before ++ .ret e :: after → after = [] := by
  induction body with
  | nil => exact iff_of_false id fun ⟨⟨e, he⟩, _⟩ ↦ nomatch he
  | cons s rest ih =>
    cases s with
    | assign target value =>
      rw [ReturnsLast, ih]
      refine and_congr (exists_congr fun e ↦ ?_)
        ⟨fun h before e after heq ↦ ?_, fun h before e after heq ↦ ?_⟩
      · exact ⟨List.mem_cons_of_mem _, fun hmem ↦
          (List.mem_cons.1 hmem).resolve_left fun heq ↦ nomatch heq⟩
      · cases before with
        | nil => exact nomatch (List.cons.inj heq).1
        | cons s before => exact h before e after (List.cons.inj heq).2
      · exact h (.assign target value :: before) e after (congrArg _ heq)
    | ret value =>
      rw [ReturnsLast]
      refine ⟨?_, fun ⟨_, h⟩ ↦ h [] value rest rfl⟩
      rintro rfl
      refine ⟨⟨value, List.mem_cons_self⟩, fun before e after heq ↦ ?_⟩
      cases before with
      | nil => exact (List.cons.inj heq).2.symm
      | cons s before => exact (List.append_ne_nil_of_right_ne_nil before
          (List.cons_ne_nil _ _) (List.cons.inj heq).2.symm).elim

/-- The same, with the last statement split off. -/
theorem returnsLast_iff_exists {body : List Statement} :
    ReturnsLast body ↔ ∃ before e, body = before ++ [.ret e] ∧ ∀ e', .ret e' ∉ before := by
  rw [returnsLast_iff_forall]
  constructor
  · rintro ⟨⟨e, he⟩, hlast⟩
    obtain ⟨before, after, hbody⟩ := List.append_of_mem he
    obtain rfl := hlast before e after hbody
    refine ⟨before, e, hbody, fun e' he' ↦ ?_⟩
    obtain ⟨before', after', rfl⟩ := List.append_of_mem he'
    rw [List.append_assoc, List.cons_append] at hbody
    exact List.append_ne_nil_of_right_ne_nil after' (List.cons_ne_nil _ _) (hlast _ _ _ hbody)
  · rintro ⟨before, e, rfl, hbefore⟩
    refine ⟨⟨e, List.mem_append_right _ List.mem_cons_self⟩, fun before' e' after heq ↦ ?_⟩
    rcases List.eq_nil_or_concat after with hnil | ⟨after', last, rfl⟩
    · exact hnil
    -- otherwise the statement before `after` is one of `before`
    · rw [List.concat_eq_append, ← List.cons_append, ← List.append_assoc] at heq
      obtain ⟨rfl, -⟩ := List.append_inj' heq rfl
      exact absurd (List.mem_append_right _ List.mem_cons_self) (hbefore e')

/-- **A circuit is valid when it has no fault.** -/
theorem Circuit.isValid_iff_forall_not_hasFault {c : Circuit} :
    c.IsValid ↔ ∀ fault, ¬ c.HasFault fault := by
  constructor
  · intro hvalid fault hfault
    cases hfault with
    | invalidName hmem hname => exact absurd (hvalid.isWireName _ hmem) (by rw [hname]; decide)
    | reassigned hdup => exact hdup.not_nodup hvalid.nodup
    | value hs hfault =>
      exact Expr.isFlattenable_iff_forall_not_hasFault.1 (hvalid.flattenable _ hs) fault hfault
    | afterReturn hbody hafter =>
      exact hafter ((returnsLast_iff_forall.1 hvalid.returnsLast).2 _ _ _ hbody)
    | missingReturn hnone =>
      obtain ⟨e, he⟩ := (returnsLast_iff_forall.1 hvalid.returnsLast).1
      exact hnone e he
  · intro h
    refine ⟨fun name hmem ↦ ?_, ?_, fun s hs ↦ ?_, returnsLast_iff_forall.2 ⟨?_, ?_⟩⟩
    · exact Bool.eq_true_of_not_eq_false fun hname ↦ h _ (.invalidName hmem hname)
    · exact List.nodup_iff_forall_not_duplicate.2 fun name hdup ↦ h _ (.reassigned hdup)
    · exact Expr.isFlattenable_iff_forall_not_hasFault.2 fun fault hfault ↦ h _ (.value hs hfault)
    · by_contra hnone
      exact h _ (.missingReturn (not_exists.1 hnone))
    · intro before e after hbody
      by_contra hafter
      exact h _ (.afterReturn hbody hafter)

/-! ### Refusals -/

namespace Draft

theorem declare_eq_error_iff {d : Draft} {name : String} {e : Error} :
    d.declare name = .error e ↔
      (SuccinctProof.isWireName name = false ∧ e = .invalidCircuit (.invalidName name)) ∨
        (SuccinctProof.isWireName name = true ∧ name ∈ d.wires ∧
          e = .invalidCircuit (.reassigned name)) := by
  rw [declare]
  cases hname : SuccinctProof.isWireName name with
  | false => simp [eq_comm]
  | true =>
    by_cases hnew : name ∈ d.wires
    · simp [hnew, eq_comm]
    · simp [hnew]

/-- A power that is refused is one that cannot be written out. -/
theorem hasFault_of_flatten_pow {target : String} {base : Expr} {n : ℤ} {d : Draft} {e : Error}
    (h : flatten target (.pow base n) d = .error e) :
    ∃ fault, e = .invalidCircuit fault ∧ (Expr.pow base n).HasFault fault := by
  rw [flatten] at h
  cases ho : base.operand? with
  | none =>
    rw [ho] at h
    exact ⟨_, (Except.error.inj h).symm, .compoundBase (Expr.self_mem_subexprs _) ho⟩
  | some o =>
    rw [ho] at h
    dsimp only at h
    split at h
    · next hn =>
      exact ⟨_, (Except.error.inj h).symm, .exponentNotPositive (Expr.self_mem_subexprs _) hn⟩
    · cases h

/-- A side is only refused for a fault of its expression. -/
theorem hasFault_of_fill {aux? : Option String} {e : Expr} {d : Draft} {err : Error}
    (ih : ∀ {target d err}, flatten target e d = .error err →
      ∃ fault, err = .invalidCircuit fault ∧ e.HasFault fault)
    (h : fill aux? e d = .error err) : ∃ fault, err = .invalidCircuit fault ∧ e.HasFault fault := by
  cases aux? with
  | none => exact nomatch h
  | some aux => exact ih h

/-- **An expression is only refused for a fault that it has**, at some depth. -/
theorem hasFault_of_flatten {e : Expr} : ∀ {target : String} {d : Draft} {err : Error},
    flatten target e d = .error err → ∃ fault, err = .invalidCircuit fault ∧ e.HasFault fault := by
  induction e with
  | var name =>
    intro target d err h
    rw [flatten] at h
    cases h
  | lit value =>
    intro target d err h
    rw [flatten] at h
    cases h
  | binary op l r ihl ihr =>
    intro target d err h
    rw [flatten_binary] at h
    rcases bind_eq_error_iff.1 h with hleft | ⟨d₁, -, hright⟩
    · obtain ⟨fault, rfl, hfault⟩ := hasFault_of_fill ihl hleft
      exact ⟨fault, rfl, hfault.mono
        (List.Subset.trans (List.subset_append_left ..) (List.subset_cons_self ..))⟩
    · obtain ⟨fault, rfl, hfault⟩ := hasFault_of_fill ihr hright
      exact ⟨fault, rfl, hfault.mono
        (List.Subset.trans (List.subset_append_right ..) (List.subset_cons_self ..))⟩
  | pow base n _ => exact hasFault_of_flatten_pow

end Draft

namespace Circuit

variable {c : Circuit}

/-- A name that is declared once more is declared twice. -/
theorem duplicate_append_cons {before after : List String} {name : String} (h : name ∈ before) :
    List.Duplicate name (before ++ name :: after) := by
  rw [List.duplicate_iff_sublist]
  exact (List.singleton_sublist.2 h).append (List.singleton_sublist.2 List.mem_cons_self)

/-- **An input is only refused for a fault of the inputs.** Induction on the inputs that are left,
with `before` for the ones that are declared. -/
theorem hasFault_of_declareInputs {names before : List String} {d : Draft} {e : Error}
    (hinputs : c.inputs = before ++ names) (hwires : d.wires = oneWire :: before)
    (h : names.foldlM Draft.declare d = .error e) :
    ∃ fault, e = .invalidCircuit fault ∧ c.HasFault fault := by
  induction names generalizing before d with
  | nil => exact nomatch h
  | cons name names ih =>
    have hdeclared : c.declared = before ++ name :: (names ++ Draft.targets c.body) := by
      rw [declared, hinputs, List.append_assoc, List.cons_append]
    rw [List.foldlM_cons] at h
    rcases bind_eq_error_iff.1 h with hdeclare | ⟨d', hdeclare, hrest⟩
    · rcases Draft.declare_eq_error_iff.1 hdeclare with ⟨hname, rfl⟩ | ⟨hname, hmem, rfl⟩
      · exact ⟨_, rfl, .invalidName (hdeclared ▸ by simp) hname⟩
      · rcases List.mem_cons.1 (hwires ▸ hmem) with rfl | hmem
        · exact absurd hname (by decide)
        · exact ⟨_, rfl, .reassigned (hdeclared ▸ duplicate_append_cons hmem)⟩
    · obtain ⟨-, -, rfl⟩ := Draft.declare_eq_ok_iff.1 hdeclare
      have hinputs' : c.inputs = (before ++ [name]) ++ names := by
        rw [hinputs, List.append_assoc, List.singleton_append]
      exact ih hinputs' (by rw [hwires, List.cons_append]) hrest

theorem targets_append (before after : List Statement) :
    Draft.targets (before ++ after) = Draft.targets before ++ Draft.targets after := by
  induction before with
  | nil => rfl
  | cons s before ih =>
    cases s with
    | assign target value => exact congrArg (target :: ·) ih
    | ret value => exact ih

/-- **A statement is only refused for a fault of the circuit**, unless its target has an auxiliary
name. Induction on the statements that are left, with `before` for those that have been run: the
wires are then the constant one, the names declared so far, and auxiliary ones. -/
theorem hasFault_of_run (hnames : ∀ k, auxName k ∉ Draft.targets c.body)
    {body before : List Statement} {d : Draft} {e : Error} (hbody : c.body = before ++ body)
    (hbefore : ∀ value, .ret value ∉ before)
    (hwires : ∀ name ∈ d.wires,
      name ∈ oneWire :: (c.inputs ++ Draft.targets before) ∨ ∃ k, name = auxName k)
    (h : Draft.run body d = .error e) : ∃ fault, e = .invalidCircuit fault ∧ c.HasFault fault := by
  induction body generalizing before d with
  | nil =>
    rw [Draft.run] at h
    rw [List.append_nil] at hbody
    exact ⟨_, (Except.error.inj h).symm, .missingReturn (hbody ▸ hbefore)⟩
  | cons s rest ih =>
    have hs : s ∈ c.body := hbody ▸ List.mem_append_right _ List.mem_cons_self
    cases s with
    | assign target value =>
      have hdeclared : c.declared =
          c.inputs ++ Draft.targets before ++ target :: Draft.targets rest := by
        rw [declared, hbody, targets_append, List.append_assoc]
        rfl
      rw [Draft.run] at h
      rcases bind_eq_error_iff.1 h with hdeclare | ⟨d₁, hdeclare, h⟩
      · rcases Draft.declare_eq_error_iff.1 hdeclare with ⟨hname, rfl⟩ | ⟨hname, hmem, rfl⟩
        · exact ⟨_, rfl, .invalidName (hdeclared ▸ by simp) hname⟩
        · rcases hwires target hmem with hmem | ⟨k, rfl⟩
          · rcases List.mem_cons.1 hmem with rfl | hmem
            · exact absurd hname (by decide)
            · exact ⟨_, rfl, .reassigned (hdeclared ▸ duplicate_append_cons hmem)⟩
          · refine absurd ?_ (hnames k)
            rw [hbody, targets_append]
            exact List.mem_append_right _ List.mem_cons_self
      · obtain ⟨-, -, rfl⟩ := Draft.declare_eq_ok_iff.1 hdeclare
        rcases bind_eq_error_iff.1 h with hflatten | ⟨d₂, hflatten, hrun⟩
        · obtain ⟨fault, rfl, hfault⟩ := Draft.hasFault_of_flatten hflatten
          exact ⟨fault, rfl, .value hs hfault⟩
        · have hbody' : c.body = (before ++ [.assign target value]) ++ rest := by
            rw [hbody, List.append_assoc, List.singleton_append]
          refine ih hbody' ?_ ?_ hrun
          · intro value' hmem
            rcases List.mem_append.1 hmem with hmem | hmem
            · exact hbefore value' hmem
            · cases List.mem_singleton.1 hmem
          · intro name hname
            rw [targets_append, ← List.append_assoc, ← List.cons_append, List.mem_append]
            rcases Draft.mem_wires_of_assign hflatten hname with hmem | rfl | haux
            · exact (hwires name hmem).imp_left .inl
            · exact .inl (.inr List.mem_cons_self)
            · exact .inr haux
    | ret value =>
      rw [Draft.run] at h
      rcases bind_eq_error_iff.1 h with hflatten | ⟨d₁, -, h⟩
      · obtain ⟨fault, rfl, hfault⟩ := Draft.hasFault_of_flatten hflatten
        exact ⟨fault, rfl, .value hs hfault⟩
      · cases rest with
        | nil => cases h
        | cons s rest =>
          exact ⟨_, (Except.error.inj h).symm, .afterReturn hbody (List.cons_ne_nil _ _)⟩

/-- **A circuit is only refused for a fault that it has**, when no target has an auxiliary name. -/
theorem hasFault_of_ofCircuit (hnames : ∀ k, auxName k ∉ Draft.targets c.body) {e : Error}
    (h : Netlist.ofCircuit c = .error e) :
    ∃ fault, e = .invalidCircuit fault ∧ c.HasFault fault := by
  rw [Netlist.ofCircuit] at h
  rcases bind_eq_error_iff.1 h with hinputs | ⟨d, hinputs, h⟩
  · exact hasFault_of_declareInputs (List.nil_append _).symm rfl hinputs
  · obtain ⟨-, -, rfl⟩ := declareInputs_eq_ok_iff.1 hinputs
    rcases bind_eq_error_iff.1 h with hrun | ⟨d', -, h⟩
    · refine hasFault_of_run hnames (List.nil_append _).symm (fun _ ↦ List.not_mem_nil) ?_ hrun
      intro name hname
      rw [Draft.targets, List.append_nil]
      exact .inl hname
    · cases h

/-- No target is an auxiliary name, when none starts as these do. -/
theorem auxName_notMem_targets
    (h : ∀ t ∈ Draft.targets c.body, ¬ "sym_".toList <+: t.toList) (k : ℕ) :
    auxName k ∉ Draft.targets c.body := by
  intro hmem
  refine h _ hmem ?_
  rw [auxName, String.toList_append]
  exact List.prefix_append _ _

/-- What names a wire may have. -/
theorem isWireName_eq_true_iff {name : String} :
    isWireName name = true ↔ name ≠ "" ∧ name.toList.head? ≠ some '~' := by
  rw [isWireName, ne_eq, ← String.toList_eq_nil_iff]
  cases name.toList with
  | nil => simp
  | cons c rest => simp

/-- **Exactly the valid circuits are accepted**, among those in which no target starts as auxiliary
names do. Names must not be empty or start with the mark of the built-in wires, and none may be
declared twice. The last statement returns, and no other does. Each power, at any depth, has an
operand as its base and a positive exponent. A circuit that is refused is refused for a fault that
it has. -/
theorem exists_ofCircuit_iff_of_targets
    (h : ∀ t ∈ Draft.targets c.body, ¬ "sym_".toList <+: t.toList) :
    ((∃ n, Netlist.ofCircuit c = .ok n) ↔
      (∀ name ∈ c.inputs ++ Draft.targets c.body, name ≠ "" ∧ name.toList.head? ≠ some '~') ∧
      (c.inputs ++ Draft.targets c.body).Nodup ∧
      (∃ before e, c.body = before ++ [.ret e] ∧ ∀ e', .ret e' ∉ before) ∧
      ∀ s ∈ c.body, ∀ base k, .pow base k ∈ s.value.subexprs →
        ((∃ name, base = .var name) ∨ ∃ i, base = .lit i) ∧ 1 ≤ k) ∧
    ∀ e, Netlist.ofCircuit c = .error e →
      ∃ fault, e = .invalidCircuit fault ∧ c.HasFault fault := by
  have hrefused := fun e ↦ hasFault_of_ofCircuit (auxName_notMem_targets h) (e := e)
  refine ⟨?_, hrefused⟩
  have haccepted : (∃ n, Netlist.ofCircuit c = .ok n) ↔ c.IsValid := by
    refine ⟨fun ⟨n, hn⟩ ↦ isValid_of_ofCircuit hn, fun hvalid ↦ ?_⟩
    cases hc : Netlist.ofCircuit c with
    | ok n => exact ⟨n, rfl⟩
    | error e =>
      obtain ⟨fault, -, hfault⟩ := hrefused e hc
      exact absurd hfault (isValid_iff_forall_not_hasFault.1 hvalid fault)
  rw [haccepted]
  constructor
  · rintro ⟨hnames, hnodup, hflat, hreturns⟩
    refine ⟨fun name hmem ↦ isWireName_eq_true_iff.1 (hnames name hmem), hnodup,
      returnsLast_iff_exists.1 hreturns, fun s hs base k hmem ↦ ?_⟩
    obtain ⟨hbase, hk⟩ := Expr.isFlattenable_iff_forall_pow.1 (hflat s hs) base k hmem
    exact ⟨Expr.operand?_ne_none_iff.1 hbase, hk⟩
  · rintro ⟨hnames, hnodup, hreturns, hpowers⟩
    refine ⟨fun name hmem ↦ isWireName_eq_true_iff.2 (hnames name hmem), hnodup, fun s hs ↦ ?_,
      returnsLast_iff_exists.2 hreturns⟩
    refine Expr.isFlattenable_iff_forall_pow.2 fun base k hmem ↦ ?_
    exact (hpowers s hs base k hmem).imp_left Expr.operand?_ne_none_iff.2

/-- A circuit that reads a name it does not declare, with a power of a sum deep in its second
statement. -/
def powerOfSum : Circuit where
  inputs := ["sym_1", "x"]
  body := [.assign "y" (.pow (.var "w") 3),
    .ret (.binary .mul (.lit 2)
      (.binary .add (.var "y") (.pow (.binary .add (.var "x") (.lit 1)) 2)))]

/-- The same circuit with the sum in a statement of its own. -/
def powerOfTarget : Circuit where
  inputs := ["sym_1", "x"]
  body := [.assign "y" (.pow (.var "w") 3), .assign "z" (.binary .add (.var "x") (.lit 1)),
    .ret (.binary .mul (.lit 2) (.binary .add (.var "y") (.pow (.var "z") 2)))]

/-- Inputs with auxiliary names, and names that nothing declares, do not matter. -/
theorem powerOfTarget_accepted :
    (∀ t ∈ Draft.targets powerOfSum.body, ¬ "sym_".toList <+: t.toList) ∧
    (∀ t ∈ Draft.targets powerOfTarget.body, ¬ "sym_".toList <+: t.toList) ∧
    (∃ fault, Netlist.ofCircuit powerOfSum = .error (.invalidCircuit fault) ∧
      powerOfSum.HasFault fault) ∧
    ∃ n, Netlist.ofCircuit powerOfTarget = .ok n := by
  have hsum : ∀ t ∈ Draft.targets powerOfSum.body, ¬ "sym_".toList <+: t.toList := by decide
  have htarget : ∀ t ∈ Draft.targets powerOfTarget.body, ¬ "sym_".toList <+: t.toList := by decide
  refine ⟨hsum, htarget, ?_, ?_⟩
  · obtain ⟨fault, heq, hfault⟩ := (exists_ofCircuit_iff_of_targets hsum).2 _ rfl
    exact ⟨fault, congrArg Except.error heq, hfault⟩
  · exact (exists_ofCircuit_iff_of_targets htarget).1.2
      ⟨by decide, by decide, ⟨powerOfTarget.body.take 2, _, rfl, by simp [powerOfTarget]⟩,
        by simp [powerOfTarget, Statement.value, Expr.subexprs]⟩

end Circuit

end SuccinctProof
