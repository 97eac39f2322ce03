import SuccinctProof.Proofs.Netlist.AuxNames

/-!
# When the names of auxiliary wires do not matter

What a circuit computes should not depend on what its wires are called. It nearly does not. An
auxiliary name is only chosen to differ from the names that are known when it is chosen, so there
are two ways for it to get in the way of a name that comes later: a target with that name is
refused, and a name that the circuit reads without declaring it reads the auxiliary wire.
`Circuit.AuxApart` excludes just these, by the names of the targets and of what is read.

Apart from them, a circuit and its renaming are accepted together and have the same witnesses
(`Circuit.witness_rename`). A circuit that has auxiliary names for its inputs at most is never
affected (`Circuit.auxApart_of_names`), and `Circuit.auxNames_clash` shows both ways on two small
circuits.
-/

namespace SuccinctProof

variable {ρ : String → String} {c : Circuit} {n n' : Netlist}

/-! ### Wires at one position -/

/-- Entries of two lists that stand side by side stand nowhere else, when no entry is repeated. -/
theorem getElem?_eq_some_iff_of_mem_zip {α β : Type} {as : List α} {bs : List β} (has : as.Nodup)
    (hbs : bs.Nodup) {a : α} {b : β} (hab : (a, b) ∈ as.zip bs) (i : ℕ) :
    as[i]? = some a ↔ bs[i]? = some b := by
  obtain ⟨j, hj⟩ := List.mem_iff_getElem?.1 hab
  obtain ⟨ha, hb⟩ := List.getElem?_zip_eq_some.1 hj
  constructor
  · intro hi
    rwa [(List.getElem?_inj (List.getElem?_eq_some_iff.1 hi).1 has).1 (hi.trans ha.symm)]
  · intro hi
    rwa [(List.getElem?_inj (List.getElem?_eq_some_iff.1 hi).1 hbs).1 (hi.trans hb.symm)]

namespace Netlist

variable {p : ℕ} [Modulus p]

section InStep

variable (h : Netlist.Parallel ρ c n n') (hn : n.SingleAssignment) (hn' : n'.SingleAssignment)
  (hreads : ∀ name ∈ c.reads, name ∈ n.wires ∨ ρ name ∈ n'.wires → name ∈ c.defined)
include h hn hn'

omit [Modulus p] in
/-- A wire that the circuit defines has the same position on both sides. -/
theorem Parallel.exists_wireIndex {name : String} (hname : name ∈ c.defined) :
    ∃ i, n.wireIndex name = .ok i ∧ n'.wireIndex (ρ name) = .ok i := by
  obtain ⟨i, hi⟩ := List.mem_iff_getElem?.1 (h.defined name hname)
  obtain ⟨hleft, hright⟩ := List.getElem?_zip_eq_some.1 hi
  exact ⟨i, (wireIndex_eq_ok_iff hn.nodup).2 hleft, (wireIndex_eq_ok_iff hn'.nodup).2 hright⟩

include hreads

/-- **Operands that stand for one another have the same place.** A name that the circuit reads
without defining it has no place on either side. -/
theorem Parallel.place_eq_ok_iff {o o' : Operand}
    (htwin : o.Twin ρ c.reads (n.wires.zip n'.wires) o') {place : Place p} :
    n.place o = .ok place ↔ n'.place o' = .ok place := by
  have hpair : ∀ {name name' : String}, (name, name') ∈ n.wires.zip n'.wires →
      (n.place (.wire name) = .ok place ↔ n'.place (.wire name') = .ok place) := fun hmem ↦ by
    rw [place_wire_eq_ok_iff hn.nodup, place_wire_eq_ok_iff hn'.nodup,
      getElem?_eq_some_iff_of_mem_zip hn.nodup hn'.nodup hmem]
  cases htwin with
  | lit value => exact Iff.rfl
  | pair hmem => exact hpair hmem
  | @read name hname =>
    by_cases hdefined : name ∈ c.defined
    · exact hpair (h.defined name hdefined)
    · rw [place_wire_eq_ok_iff hn.nodup, place_wire_eq_ok_iff hn'.nodup]
      refine ⟨fun ⟨hi, _⟩ ↦ ?_, fun ⟨hi, _⟩ ↦ ?_⟩
      · exact absurd (hreads name hname (.inl (List.mem_of_getElem? hi))) hdefined
      · exact absurd (hreads name hname (.inr (List.mem_of_getElem? hi))) hdefined

/-- **Two netlists in step have the same places.** -/
theorem Parallel.placedGates_eq_ok_iff {gs : List (PlacedGate p)} :
    n.placedGates = .ok gs ↔ n'.placedGates = .ok gs := by
  refine mapM_eq_ok_iff_of_forall₂ (h.gates.imp fun g g' htwin placed ↦ ?_)
  rw [placeGate_eq_ok_iff hn.wires_ne_nil, placeGate_eq_ok_iff hn'.wires_ne_nil, htwin.op_eq,
    h.place_eq_ok_iff hn hn' hreads htwin.left, h.place_eq_ok_iff hn hn' hreads htwin.right,
    h.place_eq_ok_iff hn hn' hreads htwin.target]

/-- **Two netlists in step have the same witnesses.** -/
theorem Parallel.witness_eq_ok_iff {x w : List (Fp p)} :
    n.witness x = .ok w ↔ n'.witness x = .ok w := by
  have hfirst : n.initialAssignment x = n'.initialAssignment x := by
    rw [initialAssignment, initialAssignment, h.numWires_eq]
  simp only [Netlist.witness_eq_ok_iff, h.numInputs_eq, hfirst,
    h.placedGates_eq_ok_iff hn hn' hreads, ne_eq, hn.wires_ne_nil, hn'.wires_ne_nil]

end InStep

end Netlist

/-! ### Circuits -/

namespace Circuit

/-- In a circuit that is accepted, only names that are read can be taken. -/
theorem auxApart_of_ofCircuit (hn : Netlist.ofCircuit c = .ok n)
    (hreads : ∀ name ∈ c.reads, name ∈ n.wires → name ∈ c.defined) : c.AuxApart :=
  (isValid_of_ofCircuit hn).auxApart_iff.2 ⟨n, hn, hreads⟩

/-- A name that an accepted circuit reads is the name of a wire only if the circuit defines it. -/
theorem AuxApart.mem_defined (h : c.AuxApart) (hn : Netlist.ofCircuit c = .ok n) {name : String}
    (hname : name ∈ c.reads) (hmem : name ∈ n.wires) : name ∈ c.defined := by
  obtain ⟨n', hn', hreads⟩ := (isValid_of_ofCircuit hn).auxApart_iff.1 h
  obtain rfl := Except.ok.inj (hn.symm.trans hn')
  exact hreads name hname hmem

/-- **Auxiliary names are harmless for inputs.** No auxiliary wire gets in the way when no target
has an auxiliary name, and no such name is read that is not an input's. -/
theorem auxApart_of_names (htargets : ∀ k, auxName k ∉ Draft.targets c.body)
    (hreads : ∀ k, auxName k ∈ c.reads → auxName k ∈ c.inputs) : c.AuxApart where
  target_ne before target value after hbody k _ _ heq := by
    have hmem : .assign target value ∈ c.body :=
      hbody ▸ List.mem_append_right _ List.mem_cons_self
    exact htargets k (heq ▸ Draft.mem_targets_of_assign_mem hmem)
  declared_of_read k _ _ hname := List.mem_append_left _ (hreads k hname)

/-- **A circuit whose auxiliary wires keep out of the way is accepted exactly when it is valid.** -/
theorem exists_ofCircuit_iff_of_auxApart (h : c.IsValid → c.AuxApart) :
    (∃ n, Netlist.ofCircuit c = .ok n) ↔ c.IsValid := by
  refine ⟨fun ⟨n, hn⟩ ↦ isValid_of_ofCircuit hn, fun hvalid ↦ ?_⟩
  obtain ⟨n, hn, -⟩ := hvalid.auxApart_iff.1 (h hvalid)
  exact ⟨n, hn⟩

/-- **The names of wires do not matter where auxiliary wires keep out of the way.** A circuit and
its renaming are accepted together. The wires that the circuit defines, the output wire among them,
have the same positions in both, and for any inputs both have the same witness or none. Nothing is
asked of the names in circuits that are not valid, since these are refused anyway. -/
theorem witness_rename {p : ℕ} [Modulus p] (hρ : c.Renames ρ) (hc : c.IsValid → c.AuxApart)
    (hc' : (c.rename ρ).IsValid → (c.rename ρ).AuxApart) :
    ((∃ n, Netlist.ofCircuit c = .ok n) ↔ ∃ n', Netlist.ofCircuit (c.rename ρ) = .ok n') ∧
      ∀ n n', Netlist.ofCircuit c = .ok n → Netlist.ofCircuit (c.rename ρ) = .ok n' →
        (∀ name ∈ c.defined, ∃ i, n.wireIndex name = .ok i ∧ n'.wireIndex (ρ name) = .ok i) ∧
        ∀ x w : List (Fp p), n.witness x = .ok w ↔ n'.witness x = .ok w := by
  refine ⟨?_, fun n n' hn hn' ↦ ?_⟩
  · rw [exists_ofCircuit_iff_of_auxApart hc, exists_ofCircuit_iff_of_auxApart hc', hρ.isValid_iff]
  have hparallel := Netlist.parallel_of_ofCircuit hρ hn hn'
  have hsingle := (Netlist.isFlattening_of_ofCircuit hn).singleAssignment
  have hsingle' := (Netlist.isFlattening_of_ofCircuit hn').singleAssignment
  have hapart := hc (isValid_of_ofCircuit hn)
  have hapart' := hc' (isValid_of_ofCircuit hn')
  have hreads : ∀ name ∈ c.reads, name ∈ n.wires ∨ ρ name ∈ n'.wires → name ∈ c.defined := by
    rintro name hname (hmem | hmem)
    · exact hapart.mem_defined hn hname hmem
    · have hnew : ρ name ∈ (c.rename ρ).reads := by
        rw [reads_rename]
        exact List.mem_map_of_mem hname
      exact (hρ.mem_defined_iff hname).1 (hapart'.mem_defined hn' hnew hmem)
  exact ⟨fun name hname ↦ hparallel.exists_wireIndex hsingle hsingle' hname,
    fun x w ↦ hparallel.witness_eq_ok_iff hsingle hsingle' hreads⟩

/-- A circuit with two auxiliary wires. -/
def plainNames : Circuit where
  inputs := ["x"]
  body := [.assign "y" (.pow (.var "x") 3),
    .ret (.binary .add (.binary .mul (.var "y") (.var "x")) (.lit 5))]

/-- Auxiliary names for its input and its target. -/
def auxNames (name : String) : String :=
  if name = "x" then "sym_1" else if name = "y" then "sym_3" else name

/-- Both names are taken before an auxiliary wire could have them, so `sym_2` and `sym_4` are
allocated where `sym_1` and `sym_2` were. -/
theorem plainNames_renamed : plainNames.Renames auxNames ∧ plainNames.AuxApart ∧
    (plainNames.rename auxNames).AuxApart ∧ ∃ n n', Netlist.ofCircuit plainNames = .ok n ∧
      Netlist.ofCircuit (plainNames.rename auxNames) = .ok n' ∧
      n'.wires = ["~one", "sym_1", "sym_3", "sym_2", "~out", "sym_4"] ∧
      (∃ i, n.wireIndex outWire = .ok i ∧ n'.wireIndex outWire = .ok i) ∧
      ∀ x w : List (Fp 101), n.witness x = .ok w ↔ n'.witness x = .ok w := by
  have hρ : plainNames.Renames auxNames := ⟨by decide, by decide, by decide⟩
  have hc : plainNames.AuxApart := auxApart_of_ofCircuit rfl (by decide)
  have hc' : (plainNames.rename auxNames).AuxApart := auxApart_of_ofCircuit rfl (by decide)
  obtain ⟨-, hagree⟩ := witness_rename (p := 101) hρ (fun _ ↦ hc) fun _ ↦ hc'
  obtain ⟨hdefined, hwitness⟩ := hagree _ _ rfl rfl
  exact ⟨hρ, hc, hc', _, _, rfl, rfl, rfl, hdefined outWire (by decide), hwitness⟩

/-! ### Names that come too late -/

/-- A circuit that declares a wire after it has needed an auxiliary one. -/
def lateTarget : Circuit where
  inputs := ["x"]
  body := [.assign "y" (.pow (.var "x") 3), .assign "w" (.binary .mul (.var "x") (.var "x")),
    .ret (.binary .add (.var "y") (.var "w"))]

/-- A circuit that reads a wire that it does not have. -/
def undeclaredRead : Circuit where
  inputs := ["x"]
  body := [.ret (.binary .add (.binary .mul (.var "x") (.var "x")) (.var "w"))]

/-- The name of the first auxiliary wire, for a wire that is neither an input nor the first. -/
def lateAuxName (name : String) : String := if name = "w" then "sym_1" else name

/-- **Auxiliary names that come too late change what a circuit does.** A target that is declared
once is refused as declared twice, and a name that nothing declares is given a value. -/
theorem auxNames_clash :
    (lateTarget.Renames lateAuxName ∧ (∃ n, Netlist.ofCircuit lateTarget = .ok n) ∧
      Netlist.ofCircuit (lateTarget.rename lateAuxName) =
        .error (.invalidCircuit (.reassigned "sym_1"))) ∧
    undeclaredRead.Renames lateAuxName ∧ ∃ n n', Netlist.ofCircuit undeclaredRead = .ok n ∧
      Netlist.ofCircuit (undeclaredRead.rename lateAuxName) = .ok n' ∧
      n.witness ([3] : List (Fp 101)) = .error (.unknownSymbol "w") ∧
      n'.witness ([3] : List (Fp 101)) = .ok [1, 3, 18, 9] := by
  refine ⟨⟨⟨by decide, by decide, by decide⟩, ⟨_, rfl⟩, rfl⟩,
    ⟨by decide, by decide, by decide⟩, _, _, rfl, rfl, ?_, ?_⟩
  · decide +kernel
  · decide +kernel

end Circuit

end SuccinctProof
