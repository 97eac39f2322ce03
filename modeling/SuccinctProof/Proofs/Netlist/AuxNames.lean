import SuccinctProof.Proofs.Netlist.Renaming

/-!
# Which names auxiliary wires get

The numbers of auxiliary wires can be read off a circuit. An expression needs one for each of its
gates but the last one, and numbers are given out upwards, except that a number is passed over when
the name with it was declared before (`auxAfter`). So the number that was given out last after some
statements is known without flattening anything (`auxReached`).

A draft keeps to this: the auxiliary names among its wires are those that were declared and those
with a number that was reached (`Draft.Numbered`). Each operation of a draft allocates as many
numbers as it needs wires (`Draft.Allocates`), and a run reaches the number that its statements say
(`Draft.Numbered.run`).

A name of that form can therefore only get in the way of an auxiliary wire when its number has been
reached, and nothing else keeps a valid circuit from being accepted
(`Circuit.IsValid.exists_ofCircuit_or_reassigned`). `Circuit.AuxApart` asks of a circuit that it has
no such names. `Circuit.IsValid.auxApart_iff` says that this is just what has to be asked of a valid
circuit for it to be accepted and to read no auxiliary wire by name.
-/

namespace SuccinctProof

/-! ### Numbers -/

/-- A name that no circuit may choose is no auxiliary name. -/
theorem auxName_ne {name : String} (h : isWireName name = false) (k : ℕ) : auxName k ≠ name := by
  rintro rfl
  exact absurd ((isWireName_auxName k).symm.trans h) Bool.noConfusion

theorem le_firstFree (taken : List String) (steps k : ℕ) : k ≤ firstFree taken steps k := by
  induction steps generalizing k with
  | zero => exact le_rfl
  | succ steps ih =>
    rw [firstFree]
    split
    · exact (Nat.le_succ k).trans (ih (k + 1))
    · exact le_rfl

/-- The numbers that a search passes over have taken names. -/
theorem auxName_mem_of_lt_firstFree {taken : List String} {steps k i : ℕ} (hk : k ≤ i)
    (hi : i < firstFree taken steps k) : auxName i ∈ taken := by
  induction steps generalizing k with
  | zero => exact absurd hi (Nat.not_lt.2 hk)
  | succ steps ih =>
    rw [firstFree] at hi
    split at hi
    · next hmem =>
      rcases Nat.eq_or_lt_of_le hk with rfl | hlt
      · exact hmem
      · exact ih hlt hi
    · exact absurd hi (Nat.not_lt.2 hk)

/-- **A search only depends on the names from its start on.** -/
theorem firstFree_congr {taken taken' : List String} {k : ℕ}
    (h : ∀ i, k ≤ i → (auxName i ∈ taken ↔ auxName i ∈ taken')) :
    firstFree taken taken.length k = firstFree taken' taken'.length k := by
  have hle := le_firstFree taken taken.length k
  have hle' := le_firstFree taken' taken'.length k
  rcases Nat.lt_trichotomy (firstFree taken taken.length k) (firstFree taken' taken'.length k) with
    hlt | heq | hgt
  · exact absurd ((h _ hle).2 (auxName_mem_of_lt_firstFree hle hlt)) (auxName_firstFree_notMem _ _)
  · exact heq
  · exact absurd ((h _ hle').1 (auxName_mem_of_lt_firstFree hle' hgt))
      (auxName_firstFree_notMem _ _)

/-- The number that is reached from `k` with `count` more auxiliary wires, when the names in
`declared` are passed over. -/
def auxAfter (declared : List String) (k : ℕ) : (count : ℕ) → ℕ
  | 0 => k
  | count + 1 => auxAfter declared (firstFree declared declared.length (k + 1)) count

theorem auxAfter_add (declared : List String) (k count count' : ℕ) :
    auxAfter declared k (count + count') = auxAfter declared (auxAfter declared k count) count' := by
  induction count generalizing k with
  | zero => rw [Nat.zero_add, auxAfter]
  | succ count ih => rw [Nat.add_right_comm, auxAfter, ih, auxAfter]

namespace Expr

/-- The number of auxiliary wires that stand for an expression as a side of a sum or product. -/
def sideCount (e : Expr) : ℕ := if e.operand? = none then 1 else 0

/-- The number of auxiliary wires of an expression: one for each compound side of a sum or product,
and one for each factor of a power after the second. -/
def auxCount : Expr → ℕ
  | var _ | lit _ => 0
  | binary _ left right => left.sideCount + right.sideCount + left.auxCount + right.auxCount
  | pow _ n => n.toNat - 2

theorem auxCount_of_operand? {e : Expr} {o : Operand} (h : e.operand? = some o) :
    e.auxCount = 0 := by
  cases e with
  | var name => rfl
  | lit value => rfl
  | binary op l r => exact nomatch h
  | pow base n => exact nomatch h

end Expr

/-- The number that is reached from `k` by the auxiliary wires of some statements, when the names in
`declared` have been declared before. -/
def auxReached (declared : List String) (k : ℕ) : List Statement → ℕ
  | [] => k
  | .assign target value :: rest =>
    auxReached (declared ++ [target]) (auxAfter (declared ++ [target]) k value.auxCount) rest
  | .ret value :: rest => auxReached declared (auxAfter declared k value.auxCount) rest

namespace Draft

/-! ### Numbered drafts -/

/-- The auxiliary names among the wires of a draft are those in `declared` and those with a number
that was reached. -/
def Numbered (declared : List String) (d : Draft) : Prop :=
  ∀ k, auxName k ∈ d.wires ↔ auxName k ∈ declared ∨ 1 ≤ k ∧ k ≤ d.counter

variable {declared : List String} {d d' d'' : Draft}

/-- A wire whose name was declared. -/
theorem Numbered.declare (h : d.Numbered declared) (name : String) :
    Numbered (declared ++ [name]) { d with wires := d.wires ++ [name] } := by
  intro k
  simp only [List.mem_append, h k]
  tauto

/-- The output wire has no auxiliary name. -/
theorem Numbered.addOut (h : d.Numbered declared) : d.addOut.Numbered declared := by
  intro k
  rw [Draft.addOut, List.mem_append, List.mem_singleton, or_iff_left (auxName_ne (by decide) k)]
  exact h k

/-- The second draft comes from the first by allocating `count` auxiliary wires. -/
structure Allocates (declared : List String) (count : ℕ) (d d' : Draft) : Prop where
  /-- The auxiliary names are still those that are known. -/
  numbered : d.Numbered declared → d'.Numbered declared
  /-- The numbers are given out upwards, without those whose names were declared. -/
  counter_eq : d.Numbered declared → d'.counter = auxAfter declared d.counter count

protected theorem Allocates.refl (d : Draft) : Allocates declared 0 d d := ⟨id, fun _ ↦ rfl⟩

protected theorem Allocates.trans {count count' : ℕ} (h : Allocates declared count d d')
    (h' : Allocates declared count' d' d'') : Allocates declared (count + count') d d'' where
  numbered hd := h'.numbered (h.numbered hd)
  counter_eq hd := by rw [h'.counter_eq (h.numbered hd), h.counter_eq hd, auxAfter_add]

theorem allocates_emit (d : Draft) (op : ArithOp) (left right : Operand) (target : String) :
    Allocates declared 0 d (d.emit op left right target) := ⟨id, fun _ ↦ rfl⟩

/-- An auxiliary wire gets the next number whose name was not declared. -/
theorem counter_allocate (h : d.Numbered declared) :
    d.allocate.2.counter = firstFree declared declared.length (d.counter + 1) :=
  firstFree_congr fun k hk ↦ (h k).trans (or_iff_left (by omega))

/-- **The auxiliary names stay known when a wire is allocated.** -/
theorem Numbered.allocate (h : d.Numbered declared) : d.allocate.2.Numbered declared := by
  intro k
  have hle : d.counter + 1 ≤ d.allocate.2.counter := le_firstFree ..
  have hnew : auxName k ∈ d.allocate.2.wires ↔
      auxName k ∈ d.wires ∨ k = d.allocate.2.counter := by
    rw [Draft.allocate, List.mem_append, List.mem_singleton, auxName_injective.eq_iff]
  rw [hnew, h k]
  constructor
  · rintro ((hmem | hreached) | rfl)
    · exact .inl hmem
    · exact .inr ⟨hreached.1, by omega⟩
    · exact .inr ⟨by omega, le_rfl⟩
  · rintro (hmem | ⟨hpos, hk⟩)
    · exact .inl (.inl hmem)
    rcases Nat.lt_or_ge d.counter k with hlt | hge
    · rcases Nat.eq_or_lt_of_le hk with heq | hbelow
      · exact .inr heq
      -- the number was passed over, so its name was declared
      · exact .inl ((h k).1 (auxName_mem_of_lt_firstFree hlt hbelow))
    · exact .inl (.inr ⟨hpos, hge⟩)

theorem allocates_allocate (d : Draft) : Allocates declared 1 d d.allocate.2 :=
  ⟨Numbered.allocate, counter_allocate⟩

theorem allocates_power (base : Operand) (n : ℕ) : ∀ (d : Draft) (target : String),
    Allocates declared (n - 2) d (d.power base n target) := by
  induction n using Nat.strongRecOn with
  | ind n ih =>
    intro d target
    match n with
    | 0 => exact allocates_emit ..
    | 1 => exact allocates_emit ..
    | 2 => exact allocates_emit ..
    | n + 3 =>
      have hrest := ih (n + 2) (by omega)
        (d.allocate.2.emit .mul (.wire d.allocate.1) base target) d.allocate.1
      have hall := ((allocates_allocate d).trans (allocates_emit ..)).trans hrest
      rwa [show 1 + 0 + (n + 2 - 2) = n + 3 - 2 by omega] at hall

/-- A compound side is given one auxiliary wire. -/
theorem allocates_side (d : Draft) (e : Expr) :
    Allocates declared e.sideCount d (d.side e).2.2 := by
  rw [side, Expr.sideCount]
  cases e.operand? with
  | some operand => exact .refl d
  | none => exact allocates_allocate d

/-- A side is filled with the auxiliary wires of its expression; an operand has none. -/
theorem allocates_of_fill {e : Expr}
    (ih : ∀ {target d d'}, flatten target e d = .ok d' → Allocates declared e.auxCount d d')
    {d₀ : Draft} (h : fill (d₀.side e).2.1 e d = .ok d') : Allocates declared e.auxCount d d' := by
  rw [side] at h
  cases ho : e.operand? with
  | some operand =>
    rw [ho] at h
    rw [Expr.auxCount_of_operand? ho]
    exact Except.ok.inj h ▸ .refl d
  | none =>
    rw [ho] at h
    exact ih h

/-- **An expression allocates as many auxiliary wires as it needs.** -/
theorem allocates_of_flatten {e : Expr} : ∀ {target : String} {d d' : Draft},
    flatten target e d = .ok d' → Allocates declared e.auxCount d d' := by
  induction e with
  | var name =>
    intro target d d' h
    rw [flatten] at h
    exact Except.ok.inj h ▸ allocates_power (.wire name) 1 d target
  | lit value =>
    intro target d d' h
    rw [flatten] at h
    exact Except.ok.inj h ▸ allocates_power (.lit value) 1 d target
  | binary op l r ihl ihr =>
    intro target d d' h
    rw [flatten_binary] at h
    obtain ⟨d₁, hleft, hright⟩ := bind_eq_ok_iff.1 h
    have hsides : Allocates declared (l.sideCount + r.sideCount) d _ :=
      (allocates_side d l).trans (allocates_side _ r)
    exact ((hsides.trans (allocates_emit ..)).trans (allocates_of_fill ihl hleft)).trans
      (allocates_of_fill ihr hright)
  | pow base n =>
    intro target d d' h
    obtain ⟨o, -, -, rfl⟩ := flatten_pow_eq_ok_iff.1 h
    exact allocates_power ..

/-! ### Runs -/

/-- **A run reaches the number that its statements say.** -/
theorem Numbered.run {body : List Statement} (h : d.Numbered declared)
    (hrun : Draft.run body d = .ok d') :
    d'.Numbered (declared ++ targets body) ∧ d'.counter = auxReached declared d.counter body := by
  induction body generalizing declared d with
  | nil => cases hrun
  | cons s rest ih =>
    cases s with
    | assign target value =>
      obtain ⟨d₁, hdeclare, d₂, hflatten, hrest⟩ := run_assign_eq_ok_iff.1 hrun
      obtain ⟨-, -, rfl⟩ := declare_eq_ok_iff.1 hdeclare
      have hallocates : Allocates (declared ++ [target]) value.auxCount _ d₂ :=
        allocates_of_flatten hflatten
      obtain ⟨hnumbered, hcounter⟩ := ih (hallocates.numbered (h.declare target)) hrest
      rw [List.append_assoc] at hnumbered
      refine ⟨hnumbered, ?_⟩
      rw [hcounter, hallocates.counter_eq (h.declare target), auxReached]
    | ret value =>
      obtain ⟨rfl, hflatten⟩ := run_ret_eq_ok_iff.1 hrun
      have hallocates : Allocates declared value.auxCount _ d' := allocates_of_flatten hflatten
      refine ⟨?_, hallocates.counter_eq h.addOut⟩
      rw [targets, targets, List.append_nil]
      exact hallocates.numbered h.addOut

/-- No target has an auxiliary name whose number is reached by the statements before it. -/
def TargetsApart (declared : List String) (k : ℕ) (body : List Statement) : Prop :=
  ∀ before target value after, body = before ++ .assign target value :: after →
    ∀ i, 1 ≤ i → i ≤ auxReached declared k before → target ≠ auxName i

theorem targetsApart_assign_iff {k : ℕ} {target : String} {value : Expr} {rest : List Statement} :
    TargetsApart declared k (.assign target value :: rest) ↔
      (∀ i, 1 ≤ i → i ≤ k → target ≠ auxName i) ∧
        TargetsApart (declared ++ [target]) (auxAfter (declared ++ [target]) k value.auxCount)
          rest := by
  constructor
  · intro h
    exact ⟨h [] target value rest rfl, fun before t e after heq ↦
      h (.assign target value :: before) t e after (congrArg (_ :: ·) heq)⟩
  · rintro ⟨hhead, hrest⟩ before t e after heq
    cases before with
    | nil =>
      obtain ⟨hassign, -⟩ := List.cons.inj heq
      obtain ⟨rfl, -⟩ := Statement.assign.inj hassign
      exact hhead
    | cons s before =>
      obtain ⟨rfl, htail⟩ := List.cons.inj heq
      exact hrest before t e after htail

theorem targetsApart_ret {k : ℕ} {value : Expr} : TargetsApart declared k [.ret value] := by
  intro before t e after heq
  cases before with
  | nil => cases heq
  | cons s before => cases before <;> cases heq

/-- A run that is not refused met no target whose number had been reached. -/
theorem Numbered.targetsApart_of_run {body : List Statement} (h : d.Numbered declared)
    (hrun : Draft.run body d = .ok d') : TargetsApart declared d.counter body := by
  induction body generalizing declared d with
  | nil => cases hrun
  | cons s rest ih =>
    cases s with
    | assign target value =>
      obtain ⟨d₁, hdeclare, d₂, hflatten, hrest⟩ := run_assign_eq_ok_iff.1 hrun
      obtain ⟨-, hnew, rfl⟩ := declare_eq_ok_iff.1 hdeclare
      have hallocates : Allocates (declared ++ [target]) value.auxCount _ d₂ :=
        allocates_of_flatten hflatten
      have hapart := ih (hallocates.numbered (h.declare target)) hrest
      rw [hallocates.counter_eq (h.declare target)] at hapart
      refine targetsApart_assign_iff.2 ⟨?_, hapart⟩
      rintro i hpos hi rfl
      exact hnew ((h i).2 (.inr ⟨hpos, hi⟩))
    | ret value =>
      obtain ⟨rfl, -⟩ := run_ret_eq_ok_iff.1 hrun
      exact targetsApart_ret

/-- **A run of valid statements is only refused for an auxiliary name**: a target that has it, and
whose number had been reached. -/
theorem Numbered.exists_run_or_reassigned {body : List Statement} (h : d.Numbered declared)
    (hnames : ∀ t ∈ targets body, SuccinctProof.isWireName t = true) (hnodup : (targets body).Nodup)
    (hdeclared : ∀ t ∈ targets body, t ∉ declared)
    (hwires : ∀ t ∈ targets body, t ∈ d.wires → ∃ k, t = auxName k)
    (hflat : ∀ s ∈ body, s.value.IsFlattenable) (hreturns : ReturnsLast body) :
    (∃ d', Draft.run body d = .ok d') ∨ ¬ TargetsApart declared d.counter body ∧ ∃ k,
      auxName k ∈ targets body ∧
        Draft.run body d = .error (.invalidCircuit (.reassigned (auxName k))) := by
  induction body generalizing declared d with
  | nil => exact hreturns.elim
  | cons s rest ih =>
    obtain ⟨hflatHead, hflatRest⟩ := List.forall_mem_cons.1 hflat
    cases s with
    | assign target value =>
      obtain ⟨hname, hnamesRest⟩ := List.forall_mem_cons.1 hnames
      obtain ⟨hnotMem, hnodupRest⟩ := List.nodup_cons.1 hnodup
      obtain ⟨hnotDeclared, hdeclaredRest⟩ := List.forall_mem_cons.1 hdeclared
      obtain ⟨hwiresHead, hwiresRest⟩ := List.forall_mem_cons.1 hwires
      rw [Draft.run, targetsApart_assign_iff]
      by_cases htaken : target ∈ d.wires
      · obtain ⟨k, rfl⟩ := hwiresHead htaken
        obtain ⟨hpos, hk⟩ := ((h k).1 htaken).resolve_left hnotDeclared
        refine .inr ⟨fun hapart ↦ hapart.1 k hpos hk rfl, k, List.mem_cons_self, ?_⟩
        rw [Draft.declare, hname, if_neg (by decide), if_pos htaken]
        rfl
      obtain ⟨d₂, hflatten⟩ : ∃ d₂, flatten target value { d with wires := d.wires ++ [target] } =
          .ok d₂ := exists_flatten_iff.2 hflatHead
      rw [declare_eq_ok_iff.2 ⟨hname, htaken, rfl⟩, ok_bind, hflatten, ok_bind]
      have hallocates : Allocates (declared ++ [target]) value.auxCount _ d₂ :=
        allocates_of_flatten hflatten
      have hdeclared₂ : ∀ t ∈ targets rest, t ∉ declared ++ [target] := by
        intro t ht hmem
        rcases List.mem_append.1 hmem with hmem | hmem
        · exact hdeclaredRest t ht hmem
        · exact hnotMem (List.mem_singleton.1 hmem ▸ ht)
      have hwires₂ : ∀ t ∈ targets rest, t ∈ d₂.wires → ∃ k, t = auxName k := by
        intro t ht hmem
        rcases mem_wires_of_assign hflatten hmem with hmem | rfl | haux
        · exact hwiresRest t ht hmem
        · exact absurd ht hnotMem
        · exact haux
      refine (ih (hallocates.numbered (h.declare target)) hnamesRest hnodupRest hdeclared₂ hwires₂
        hflatRest hreturns).imp_right ?_
      rintro ⟨hclash, k, hk, herror⟩
      rw [hallocates.counter_eq (h.declare target)] at hclash
      exact ⟨fun hapart ↦ hclash hapart.2, k, List.mem_cons_of_mem _ hk, herror⟩
    | ret value =>
      obtain rfl : rest = [] := hreturns
      obtain ⟨d', hflatten⟩ := exists_flatten_iff.2 hflatHead
      exact .inl ⟨d', run_ret_eq_ok_iff.2 ⟨rfl, hflatten⟩⟩

end Draft

/-! ### Circuits -/

namespace Circuit

variable {c : Circuit} {n : Netlist}

/-- **No auxiliary wire gets in the way of a name that the circuit uses.** -/
structure AuxApart (c : Circuit) : Prop where
  /-- No target has the name of an auxiliary wire that the statements before it need. -/
  target_ne : ∀ before target value after, c.body = before ++ .assign target value :: after →
    ∀ k, 1 ≤ k → k ≤ auxReached c.inputs 0 before → target ≠ auxName k
  /-- No name that is read without being declared is that of an auxiliary wire. -/
  declared_of_read : ∀ k, 1 ≤ k → k ≤ auxReached c.inputs 0 c.body → auxName k ∈ c.reads →
    auxName k ∈ c.declared

/-- Before the statements only the inputs have auxiliary names. -/
theorem numbered_inputs (c : Circuit) : Draft.Numbered c.inputs ⟨[], oneWire :: c.inputs, 0⟩ := by
  intro k
  rw [List.mem_cons, or_iff_right (auxName_ne (by decide) k)]
  refine (or_iff_left ?_).symm
  rintro ⟨hpos, hle⟩
  exact absurd (hpos.trans hle) (Nat.not_succ_le_zero 0)

/-- **The auxiliary names among the wires of a circuit** are those that it declares and those whose
numbers are reached. -/
theorem auxName_mem_wires_iff (hn : Netlist.ofCircuit c = .ok n) (k : ℕ) :
    auxName k ∈ n.wires ↔ auxName k ∈ c.declared ∨ 1 ≤ k ∧ k ≤ auxReached c.inputs 0 c.body := by
  obtain ⟨-, -, d, hrun, rfl⟩ := Netlist.ofCircuit_eq_ok_iff.1 hn
  obtain ⟨hnumbered, hcounter⟩ := c.numbered_inputs.run hrun
  rw [← hcounter]
  exact hnumbered k

/-- **A valid circuit is accepted, or refused for a target with an auxiliary name** whose number is
reached before the target is declared. -/
theorem IsValid.exists_ofCircuit_or_reassigned (h : c.IsValid) :
    (∃ n, Netlist.ofCircuit c = .ok n) ∨ ¬ Draft.TargetsApart c.inputs 0 c.body ∧ ∃ k,
      auxName k ∈ Draft.targets c.body ∧
        Netlist.ofCircuit c = .error (.invalidCircuit (.reassigned (auxName k))) := by
  obtain ⟨hnamesInputs, hnamesTargets⟩ := List.forall_mem_append.1 h.isWireName
  obtain ⟨hnodupInputs, hnodupTargets, hdisjoint⟩ := List.nodup_append.1 h.nodup
  have hdeclared : ∀ t ∈ Draft.targets c.body, t ∉ c.inputs := fun t ht hmem ↦
    hdisjoint t hmem t ht rfl
  have hwires : ∀ t ∈ Draft.targets c.body, t ∈ oneWire :: c.inputs → ∃ k, t = auxName k := by
    intro t ht hmem
    rcases List.mem_cons.1 hmem with rfl | hinput
    · exact absurd (hnamesTargets _ ht) (by decide)
    · exact absurd hinput (hdeclared t ht)
  rw [Netlist.ofCircuit, declareInputs_eq_ok_iff.2 ⟨hnamesInputs, hnodupInputs, rfl⟩, ok_bind]
  rcases c.numbered_inputs.exists_run_or_reassigned hnamesTargets hnodupTargets hdeclared hwires
    h.flattenable h.returnsLast with ⟨d', hrun⟩ | ⟨hclash, k, hk, herror⟩
  · exact .inl ⟨_, by rw [hrun]; rfl⟩
  · exact .inr ⟨hclash, k, hk, by rw [herror]; rfl⟩

/-- **For a valid circuit this is all that has to be asked**: it is accepted and reads no auxiliary
wire by name. -/
theorem IsValid.auxApart_iff (h : c.IsValid) : c.AuxApart ↔
    ∃ n, Netlist.ofCircuit c = .ok n ∧ ∀ name ∈ c.reads, name ∈ n.wires → name ∈ c.defined := by
  constructor
  · intro hapart
    obtain ⟨n, hn⟩ := h.exists_ofCircuit_or_reassigned.resolve_right fun hrefused ↦
      hrefused.1 hapart.target_ne
    refine ⟨n, hn, fun name hname hmem ↦ ?_⟩
    rcases defined_or_aux_of_mem_wires hn hmem with hdefined | ⟨k, rfl⟩
    · exact hdefined
    refine List.mem_cons_of_mem _ (List.mem_cons_of_mem _ ?_)
    rcases (auxName_mem_wires_iff hn k).1 hmem with hdeclared | ⟨hpos, hk⟩
    · exact hdeclared
    · exact hapart.declared_of_read k hpos hk hname
  · rintro ⟨n, hn, hreads⟩
    obtain ⟨-, -, d, hrun, -⟩ := Netlist.ofCircuit_eq_ok_iff.1 hn
    refine ⟨c.numbered_inputs.targetsApart_of_run hrun, fun k hpos hk hname ↦ ?_⟩
    have hmem := hreads _ hname ((auxName_mem_wires_iff hn k).2 (.inr ⟨hpos, hk⟩))
    -- the built-in wires have no auxiliary names
    exact List.mem_of_ne_of_mem (auxName_ne (by decide) k)
      (List.mem_of_ne_of_mem (auxName_ne (by decide) k) hmem)

end Circuit

end SuccinctProof
