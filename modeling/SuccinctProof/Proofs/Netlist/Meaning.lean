import Mathlib.Logic.Function.Basic
import SuccinctProof.Proofs.Netlist.Derivation
import SuccinctProof.Proofs.Netlist.Solving

/-!
# Flattening preserves meaning

`Circuit.values` is what a circuit means: its statements are executed in order, each with the values
that the earlier ones left. `Circuit.WellScoped` asks that a statement only reads wires that have a
value by then.

For a circuit that is well scoped and accepted, every gate of its netlist is fed, and every value
of the circuit is derivable (`Draft.derives_of_run`, with `Draft.Tracks` as the invariant). The
solver settles whatever is derivable (`SingleAssignment.operand?_of_derives`), so no gate is left
waiting, and the witness agrees with the circuit (`Circuit.witness_eq_values`).
-/

namespace SuccinctProof

variable {p : ℕ} [Modulus p]

/-! ### The meaning of a circuit -/

namespace Statement

/-- The wire that a statement gives a value. -/
def target : Statement → String
  | assign target _ => target
  | ret _ => outWire

/-- The expression whose value it is given. -/
def value : Statement → Expr
  | assign _ value => value
  | ret value => value

/-- The values of wires after a statement. -/
def exec (env : String → Option (Fp p)) (s : Statement) : String → Option (Fp p) :=
  Function.update env s.target (s.value.eval env)

/-- A statement leaves other wires as they are. -/
theorem exec_of_ne {env : String → Option (Fp p)} {s : Statement} {name : String}
    (h : name ≠ s.target) : s.exec env name = env name :=
  Function.update_of_ne h _ _

end Statement

namespace Circuit

/-- The values that are known at the start: one on the constant-one wire, and the inputs. -/
def inputValues (c : Circuit) (x : List (Fp p)) (name : String) : Option (Fp p) := do
  (1 :: x)[← (oneWire :: c.inputs).idxOf? name]?

/-- **The values of the wires of a circuit**, computed statement by statement. -/
def values (c : Circuit) (x : List (Fp p)) : String → Option (Fp p) :=
  c.body.foldl Statement.exec (c.inputValues x)

/-- Each statement reads only given names and the targets of earlier statements. -/
def ScopedFrom : (names : List String) → List Statement → Prop
  | _, [] => True
  | names, s :: rest => (∀ name ∈ s.value.vars, name ∈ names) ∧ ScopedFrom (s.target :: names) rest

instance decidableScopedFrom : ∀ names body, Decidable (ScopedFrom names body)
  | _, [] => inferInstanceAs (Decidable True)
  | names, s :: rest =>
    have := decidableScopedFrom (s.target :: names) rest
    inferInstanceAs (Decidable (_ ∧ _))

/-- Each statement reads only the constant one, inputs, and the targets of earlier statements. -/
def WellScoped (c : Circuit) : Prop := ScopedFrom (oneWire :: c.inputs) c.body

instance (c : Circuit) : Decidable c.WellScoped := decidableScopedFrom _ _

theorem inputValues_eq_some_iff {c : Circuit} {x : List (Fp p)} {name : String} {y : Fp p} :
    c.inputValues x name = some y ↔
      ∃ i, (oneWire :: c.inputs).idxOf? name = some i ∧ (1 :: x)[i]? = some y :=
  Option.bind_eq_some_iff

/-- The names of the start have values, if there is a value for each of them. -/
theorem inputValues_ne_none_iff {c : Circuit} {x : List (Fp p)} (hx : x.length = c.inputs.length)
    {name : String} : c.inputValues x name ≠ none ↔ name ∈ oneWire :: c.inputs := by
  rw [Option.ne_none_iff_exists']
  constructor
  · rintro ⟨y, hy⟩
    obtain ⟨i, hi, -⟩ := inputValues_eq_some_iff.1 hy
    exact List.isSome_idxOf?.1 (Option.isSome_iff_exists.2 ⟨i, hi⟩)
  · intro hname
    obtain ⟨i, hi⟩ := Option.isSome_iff_exists.1 (List.isSome_idxOf?.2 hname)
    obtain ⟨hlt, -, -⟩ := List.idxOf?_eq_some_iff.1 hi
    have hlt' : i < (1 :: x).length := by rwa [List.length_cons, hx]
    exact ⟨_, inputValues_eq_some_iff.2 ⟨i, hi, List.getElem?_eq_getElem hlt'⟩⟩

end Circuit

/-! ### What a run derives -/

namespace Draft

variable {gates : List Gate} {known env : String → Option (Fp p)}

/-- What is known of the values of wires between two statements: they are derivable, they are values
of wires that the draft has, and the output is not among them yet. -/
structure Tracks (gates : List Gate) (known : String → Option (Fp p)) (d : Draft)
    (env : String → Option (Fp p)) : Prop where
  /-- The values are derivable. -/
  derives : DerivesAll gates known env
  /-- Only wires of the draft have values. -/
  mem_wires : ∀ name, env name ≠ none → name ∈ d.wires
  /-- The output wire has not been added. -/
  outWire_notMem : outWire ∉ d.wires

/-- **Executing a statement whose target is new** adds a derivable value and keeps all others. -/
theorem derives_of_exec {s : Statement} {d d' : Draft} (henv : DerivesAll gates known env)
    (hnew : env s.target = none) (hread : ∀ name ∈ s.value.vars, env name ≠ none)
    (h : flatten s.target s.value d = .ok d') (hsub : d'.gates ⊆ gates) :
    DerivesAll gates known (s.exec env) ∧ Feeds gates known d d' ∧
      (∀ name y, env name = some y → s.exec env name = some y) ∧
      ∃ y, s.exec env s.target = some y ∧ s.value.eval (s.exec env) = some y := by
  obtain ⟨y, hy⟩ := Expr.exists_eval hread
  obtain ⟨htarget, hfeeds⟩ := derives_of_flatten henv h hsub hy
  have hexec : ∀ name, s.exec env name = if name = s.target then some y else env name := by
    intro name
    rw [Statement.exec, hy, Function.update_apply]
  have hle : ∀ name z, env name = some z → s.exec env name = some z := by
    intro name z hz
    rw [hexec, if_neg, hz]
    rintro rfl
    exact nomatch hnew.symm.trans hz
  refine ⟨fun name z hz ↦ ?_, hfeeds, hle, y, ?_, Expr.eval_mono hle hy⟩
  · rw [hexec] at hz
    split at hz
    · next heq => exact heq ▸ Option.some.inj hz ▸ htarget
    · exact henv name z hz
  · rw [hexec, if_pos rfl]

/-- **An assignment keeps track of the values**: its target is new, so no value is replaced, and it
has a value afterwards. -/
theorem Tracks.assign {target : String} {value : Expr} {d d₁ d₂ : Draft}
    (htracks : Tracks gates known d env) (hdeclare : d.declare target = .ok d₁)
    (hflatten : flatten target value d₁ = .ok d₂) (hsub : d₂.gates ⊆ gates)
    (hread : ∀ name ∈ value.vars, env name ≠ none) :
    Tracks gates known d₂ (Statement.exec env (.assign target value)) ∧ Feeds gates known d d₂ ∧
      (∀ name y, env name = some y → Statement.exec env (.assign target value) name = some y) ∧
      ∃ y, Statement.exec env (.assign target value) target = some y ∧
        value.eval (Statement.exec env (.assign target value)) = some y := by
  obtain ⟨added, hcontinues⟩ := exists_continues_of_assign hdeclare hflatten
  obtain ⟨-, hnotMem, rfl⟩ := declare_eq_ok_iff.1 hdeclare
  have hnew : env target = none := by
    by_contra hne
    exact hnotMem (htracks.mem_wires _ hne)
  obtain ⟨hderives, hfeeds, hle, hvalue⟩ :=
    derives_of_exec (s := .assign target value) htracks.derives hnew hread hflatten hsub
  refine ⟨⟨hderives, fun name hname ↦ ?_, hcontinues.outWire_notMem htracks.outWire_notMem⟩,
    hfeeds, hle, hvalue⟩
  rw [hcontinues.wires, List.mem_append, List.mem_cons]
  rcases eq_or_ne name target with heq | hne
  · exact .inr (.inl heq)
  · refine .inl (htracks.mem_wires name ?_)
    rwa [Statement.exec_of_ne (s := .assign target value) hne] at hname

/-- **A run derives every value of the circuit, from gates that are all fed**, and no statement
changes the value of an earlier one. Induction on the statements, with `Tracks` as the invariant. -/
theorem derives_of_run {names : List String} {body : List Statement} {d d' : Draft}
    (h : run body d = .ok d') (hsub : d'.gates ⊆ gates) (htracks : Tracks gates known d env)
    (hscope : Circuit.ScopedFrom names body) (hnames : ∀ name ∈ names, env name ≠ none) :
    DerivesAll gates known (body.foldl Statement.exec env) ∧ Feeds gates known d d' ∧
      (∀ name y, env name = some y → body.foldl Statement.exec env name = some y) ∧
      ∀ s ∈ body, ∃ y, body.foldl Statement.exec env s.target = some y ∧
        s.value.eval (body.foldl Statement.exec env) = some y := by
  induction body generalizing names d env with
  | nil => cases h
  | cons s rest ih =>
    obtain ⟨hvars, hrest⟩ := hscope
    have hread : ∀ name ∈ s.value.vars, env name ≠ none :=
      fun name hname ↦ hnames name (hvars name hname)
    cases s with
    | assign target value =>
      obtain ⟨d₁, hdeclare, d₂, hflatten, hrun⟩ := run_assign_eq_ok_iff.1 h
      have hsub₂ := List.Subset.trans (gates_subset_of_run hrun) hsub
      obtain ⟨htracks₂, hfeeds, hle, y, hy, hvalue⟩ :=
        htracks.assign hdeclare hflatten hsub₂ hread
      have hnames₂ : ∀ name ∈ target :: names,
          Statement.exec env (.assign target value) name ≠ none := by
        refine List.forall_mem_cons.2 ⟨hy ▸ Option.some_ne_none y, fun name hname ↦ ?_⟩
        obtain ⟨z, hz⟩ := Option.ne_none_iff_exists'.1 (hnames name hname)
        exact hle name z hz ▸ Option.some_ne_none z
      obtain ⟨hderives, hfeeds', hle', hvalues⟩ := ih hrun htracks₂ hrest hnames₂
      refine ⟨hderives, Feeds.trans hfeeds hfeeds', fun name z hz ↦ hle' name z (hle name z hz),
        List.forall_mem_cons.2 ⟨⟨y, hle' _ _ hy, ?_⟩, hvalues⟩⟩
      exact Expr.eval_mono hle' hvalue
    | ret value =>
      obtain ⟨rfl, hflatten⟩ := run_ret_eq_ok_iff.1 h
      have hnew : env outWire = none := by
        by_contra hne
        exact htracks.outWire_notMem (htracks.mem_wires _ hne)
      obtain ⟨hderives, hfeeds, hle, hvalue⟩ :=
        derives_of_exec (s := .ret value) htracks.derives hnew hread hflatten hsub
      refine ⟨hderives, hfeeds, hle, fun s hs ↦ ?_⟩
      obtain rfl := List.mem_singleton.1 hs
      exact hvalue

end Draft

/-! ### Solving what is derivable -/

namespace Netlist

/-- Known values are those of the first wires of a netlist: the constant one, and the inputs. -/
def Seeds (n : Netlist) (x : List (Fp p)) (known : String → Option (Fp p)) : Prop :=
  ∀ name y, known name = some y →
    ∃ i : ℕ, n.wires[i]? = some name ∧ (1 :: x)[i]? = some y

variable {n : Netlist} {x : List (Fp p)} {known : String → Option (Fp p)}

/-- A derivable operand has a place. -/
theorem SingleAssignment.exists_place (h : n.SingleAssignment) (hknown : n.Seeds x known)
    {o : Operand} {y : Fp p} (hd : Derives n.gates known o y) :
    ∃ place : Place p, n.place o = .ok place := by
  cases hd with
  | lit k => exact ⟨⟨0, Fp.ofInt k⟩, rfl⟩
  | known hname =>
    obtain ⟨i, hi, -⟩ := hknown _ _ hname
    exact ⟨⟨i, 1⟩, (place_wire_eq_ok_iff h.nodup).2 ⟨hi, rfl⟩⟩
  | @gate g a b hg _ _ =>
    obtain ⟨name, hname, hwire⟩ := List.mem_map.1 (h.targets.subset (List.mem_map_of_mem hg))
    obtain ⟨i, hi⟩ := List.mem_iff_getElem?.1 (List.mem_of_mem_drop hname)
    rw [← hwire]
    exact ⟨⟨i, 1⟩, (place_wire_eq_ok_iff h.nodup).2 ⟨hi, rfl⟩⟩

/-- Gates that are all fed have places. -/
theorem SingleAssignment.exists_placedGates (h : n.SingleAssignment) (hknown : n.Seeds x known)
    (hfed : ∀ g ∈ n.gates, g.Fed n.gates known) :
    ∃ gs : List (PlacedGate p), n.placedGates = .ok gs := by
  refine exists_mapM_eq_ok fun g hg ↦ ?_
  obtain ⟨⟨a, ha⟩, b, hb⟩ := hfed g hg
  exact (exists_placeGate_iff h.wires_ne_nil).2 ⟨h.exists_place hknown ha,
    h.exists_place hknown hb, h.exists_place hknown (.gate hg ha hb)⟩

variable {gs : List (PlacedGate p)}

/-- **The solver finds every derivable value.** Induction on the derivation: a gate whose operands
have values does not wait when the sweeps are over, so its target has their result. -/
theorem SingleAssignment.operand?_of_derives (h : n.SingleAssignment)
    (hx : x.length = n.numInputs) (hgs : n.placedGates = .ok gs) (hknown : n.Seeds x known)
    {o : Operand} {y : Fp p} (hd : Derives n.gates known o y) :
    ∀ {place : Place p}, n.place o = .ok place →
      ((n.initialAssignment x).settle gs).1.operand? place = some y := by
  obtain ⟨hprogress, hstuck⟩ := Assignment.settle_spec (h.ready_initialAssignment hx hgs)
  have hfirst : ∀ i y, (1 :: x)[i]? = some y →
      ((n.initialAssignment x).settle gs).1.value? i = some y := by
    intro i y hi
    refine hprogress.le i y ?_
    rw [value?_initialAssignment h.inputs_lt hx, hi]
  induction hd with
  | lit k =>
    intro place hplace
    obtain rfl := Except.ok.inj hplace
    rw [Assignment.operand?, hfirst 0 1 rfl, Option.map_some, mul_one]
  | known hname =>
    intro place hplace
    obtain ⟨i, hi, hvalue⟩ := hknown _ _ hname
    obtain ⟨hwire, hcoeff⟩ := (place_wire_eq_ok_iff h.nodup).1 hplace
    have hi' : i = place.wire := by
      obtain ⟨hlt, -⟩ := List.getElem?_eq_some_iff.1 hi
      exact (List.getElem?_inj hlt h.nodup).1 (hi.trans hwire.symm)
    rw [Assignment.operand?, hcoeff, ← hi', hfirst i _ hvalue, Option.map_some, one_mul]
  | @gate g a b hg left right ihl ihr =>
    intro place hplace
    obtain ⟨g', hg', hplaced⟩ := exists_of_mapM_eq_ok hgs hg
    obtain ⟨hleft, hright, htarget, hop⟩ := (placeGate_eq_ok_iff h.wires_ne_nil).1 hplaced
    obtain rfl := Except.ok.inj (hplace.symm.trans htarget)
    have hresult : ((n.initialAssignment x).settle gs).1.result? g' = some (g.op.apply a b) :=
      Assignment.result?_eq_some_iff.2 ⟨a, b, ihl hleft, ihr hright, by rw [hop]⟩
    -- a gate with a result does not wait any more
    rcases hprogress.settled g' hg' with hwaits | ⟨z, hz, hvalue⟩
    · exact nomatch hresult.symm.trans (hstuck g' hwaits)
    · rw [Assignment.operand?, hvalue, (h.target_of_mem hgs hg').2.2, Option.map_some, one_mul,
        ← hz, hresult]

/-- **Gates that are all fed are all settled.** -/
theorem SingleAssignment.waiting_eq_nil (h : n.SingleAssignment) (hx : x.length = n.numInputs)
    (hgs : n.placedGates = .ok gs) (hknown : n.Seeds x known)
    (hfed : ∀ g ∈ n.gates, g.Fed n.gates known) : ((n.initialAssignment x).settle gs).2 = [] := by
  obtain ⟨hprogress, hstuck⟩ := Assignment.settle_spec (h.ready_initialAssignment hx hgs)
  refine List.eq_nil_iff_forall_not_mem.2 fun g' hwaits ↦ ?_
  obtain ⟨g, hg, hplaced⟩ := exists_of_mem_mapM hgs (hprogress.sublist.subset hwaits)
  obtain ⟨hleft, hright, -, -⟩ := (placeGate_eq_ok_iff h.wires_ne_nil).1 hplaced
  obtain ⟨⟨a, ha⟩, b, hb⟩ := hfed g hg
  have hresult := Assignment.result?_eq_some_iff.2
    ⟨a, b, h.operand?_of_derives hx hgs hknown ha hleft,
      h.operand?_of_derives hx hgs hknown hb hright, rfl⟩
  exact nomatch hresult.symm.trans (hstuck g' hwaits)

end Netlist

/-! ### The witness of a circuit -/

/-- The values of the start are those of the first wires of the netlist. -/
theorem Netlist.IsFlattening.seeds {c : Circuit} {n : Netlist} (h : n.IsFlattening c)
    (x : List (Fp p)) : n.Seeds x (c.inputValues x) := by
  intro name y hy
  obtain ⟨i, hi, hvalue⟩ := Circuit.inputValues_eq_some_iff.1 hy
  obtain ⟨hlt, hname, -⟩ := List.idxOf?_eq_some_iff.1 hi
  have hlt' : i < n.numInputs + 1 := by rwa [h.numInputs_eq]
  refine ⟨i, ?_, hvalue⟩
  rw [← List.getElem?_take_of_lt hlt', h.take_wires, List.getElem?_eq_getElem hlt, hname]

/-- **The netlist of a circuit derives its values.** -/
theorem Netlist.derives_of_ofCircuit {c : Circuit} {n : Netlist}
    (hn : Netlist.ofCircuit c = .ok n) (hscope : c.WellScoped) {x : List (Fp p)}
    (hx : x.length = c.inputs.length) :
    Draft.DerivesAll n.gates (c.inputValues x) (c.values x) ∧
      (∀ g ∈ n.gates, g.Fed n.gates (c.inputValues x)) ∧
      ∀ s ∈ c.body, ∃ y, c.values x s.target = some y ∧ s.value.eval (c.values x) = some y := by
  obtain ⟨d, d', hinputs, hrun, rfl⟩ := Netlist.exists_run_of_ofCircuit hn
  have hcontinues := Draft.continues_of_declareAll hinputs
  have htracks : Draft.Tracks d'.gates (c.inputValues x) d (c.inputValues x) := by
    refine ⟨fun name y hy ↦ .known hy, fun name hname ↦ ?_,
      hcontinues.outWire_notMem (by decide)⟩
    rw [hcontinues.wires, List.singleton_append]
    exact (Circuit.inputValues_ne_none_iff hx).1 hname
  obtain ⟨hderives, hfeeds, -, hvalues⟩ := Draft.derives_of_run hrun (List.Subset.refl _) htracks
    hscope fun name hname ↦ (Circuit.inputValues_ne_none_iff hx).2 hname
  -- the draft of the inputs has no gates
  refine ⟨hderives, fun g hg ↦ (hfeeds g hg).resolve_left ?_, hvalues⟩
  obtain ⟨gs, hgs, hperm⟩ := hcontinues.gates
  rw [hgs, List.map_eq_nil_iff.1 hperm.eq_nil]
  exact List.not_mem_nil

theorem Draft.exists_ret_of_run {body : List Statement} {d d' : Draft}
    (h : Draft.run body d = .ok d') : ∃ before e, body = before ++ [.ret e] := by
  induction body generalizing d with
  | nil => cases h
  | cons s rest ih =>
    cases s with
    | assign target value =>
      obtain ⟨d₁, -, d₂, -, hrun⟩ := run_assign_eq_ok_iff.1 h
      obtain ⟨before, e, rfl⟩ := ih hrun
      exact ⟨.assign target value :: before, e, rfl⟩
    | ret value =>
      obtain ⟨rfl, -⟩ := run_ret_eq_ok_iff.1 h
      exact ⟨[], value, rfl⟩

/-- **Flattening preserves meaning.** For a circuit that is accepted and well scoped, and as many
values as it has inputs, the solver finds a value for every wire: one for the constant-one wire, the
given values for the inputs, and for the target of each statement the value of its expression under
the values of the circuit. -/
theorem Circuit.witness_eq_values {c : Circuit} {n : Netlist} (hn : Netlist.ofCircuit c = .ok n)
    (hscope : c.WellScoped) {x : List (Fp p)} (hx : x.length = n.numInputs) :
    ∃ w, n.witness x = .ok w ∧ w.length = n.numWires ∧ w.take (n.numInputs + 1) = 1 :: x ∧
      (∃ before e, c.body = before ++ [.ret e]) ∧
      ∀ s ∈ c.body, ∃ i y, n.wireIndex s.target = .ok i ∧ w[i]? = some y ∧
        c.values x s.target = some y ∧ s.value.eval (c.values x) = some y := by
  have hflat := Netlist.isFlattening_of_ofCircuit hn
  have hsingle := hflat.singleAssignment
  have hseeds := hflat.seeds x
  obtain ⟨hderives, hfed, hvalues⟩ :=
    Netlist.derives_of_ofCircuit hn hscope (hx.trans hflat.numInputs_eq)
  obtain ⟨gs, hgs⟩ := hsingle.exists_placedGates hseeds hfed
  obtain ⟨w, hw, hvalue⟩ :=
    hsingle.exists_witness hx hgs (hsingle.waiting_eq_nil hx hgs hseeds hfed)
  have hsolution := hsingle.isSolution_of_witness hw
  refine ⟨w, hw, hsolution.length_eq, hsolution.take_eq, ?_, fun s hs ↦ ?_⟩
  · rw [Netlist.ofCircuit] at hn
    obtain ⟨d, -, hrest⟩ := bind_eq_ok_iff.1 hn
    obtain ⟨d', hrun, -⟩ := bind_eq_ok_iff.1 hrest
    exact Draft.exists_ret_of_run hrun
  · obtain ⟨y, hy, heval⟩ := hvalues s hs
    obtain ⟨place, hplace⟩ := hsingle.exists_place hseeds (hderives _ _ hy)
    obtain ⟨hwire, hcoeff⟩ := (Netlist.place_wire_eq_ok_iff hsingle.nodup).1 hplace
    have hoperand := hsingle.operand?_of_derives hx hgs hseeds (hderives _ _ hy) hplace
    rw [Assignment.operand?, hcoeff] at hoperand
    obtain ⟨y', hy', hmul⟩ := Option.map_eq_some_iff.1 hoperand
    rw [one_mul] at hmul
    exact ⟨place.wire, y, (Netlist.wireIndex_eq_ok_iff hsingle.nodup).2 hwire,
      by rw [hvalue, hy', hmul], hy, heval⟩

/-- A circuit with an input that has the name of an auxiliary wire. -/
def takenName : Circuit where
  inputs := ["x", "sym_1"]
  body := [.assign "y" (.pow (.var "x") 3),
    .ret (.binary .add (.binary .mul (.var "y") (.var "sym_1")) (.lit (-2)))]

theorem takenName_witness : ∃ n, Netlist.ofCircuit takenName = .ok n ∧ takenName.WellScoped ∧
    ([2, 3] : List (Fp 101)).length = n.numInputs ∧
    ∃ w : List (Fp 101), n.witness [2, 3] = .ok w ∧ w.length = n.numWires ∧
      w.take (n.numInputs + 1) = [1, 2, 3] ∧
      (∃ before e, takenName.body = before ++ [.ret e]) ∧
      ∀ s ∈ takenName.body, ∃ i y, n.wireIndex s.target = .ok i ∧ w[i]? = some y ∧
        takenName.values [2, 3] s.target = some y ∧
        s.value.eval (takenName.values [2, 3]) = some y :=
  ⟨_, rfl, by decide, rfl, Circuit.witness_eq_values rfl (by decide) rfl⟩

/-- The auxiliary wires are `sym_2` and `sym_3`, at positions four and six. -/
example : (Netlist.ofCircuit takenName >>= fun n ↦ n.witness ([2, 3] : List (Fp 101))) =
    .ok [1, 2, 3, 8, 4, 22, 24] := by
  decide +kernel

end SuccinctProof
