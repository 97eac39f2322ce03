import SuccinctProof.Proofs.Netlist.Flattening
import SuccinctProof.Proofs.Netlist.Sweeps

/-!
# Solving a netlist with single assignment

In a netlist with single assignment a name has one position, and the gates have the wires after the
inputs as their targets, each once. So the gates are ready for the assignment that knows the
constant one and the inputs (`ready_initialAssignment`), and `Assignment.settle_spec` applies.

`IsSolution` is what a witness is: the constant one, the inputs, and values that fit every gate.
`isSolution_of_witness` says that the solver computes nothing else, and `exists_witness` that it
succeeds as soon as no gate is left waiting.
-/

namespace SuccinctProof.Netlist

variable {p : ℕ} [Modulus p] {n : Netlist} {x : List (Fp p)} {gs : List (PlacedGate p)}

/-! ### Places -/

/-- **Among distinct names, the first position of a name is its only one.** -/
theorem wireIndex_eq_ok_iff (h : n.wires.Nodup) {name : String} {i : ℕ} :
    n.wireIndex name = .ok i ↔ n.wires[i]? = some name := by
  rw [wireIndex]
  constructor
  · intro heq
    split at heq
    · next j hj =>
      obtain rfl := Except.ok.inj heq
      obtain ⟨hi, hname, -⟩ := List.idxOf?_eq_some_iff.1 hj
      rw [List.getElem?_eq_getElem hi, hname]
    · exact nomatch heq
  · intro heq
    obtain ⟨hi, hname⟩ := List.getElem?_eq_some_iff.1 heq
    have hidx : n.wires.idxOf? name = some i := by
      refine List.idxOf?_eq_some_iff.2 ⟨hi, hname, fun j hj hj' ↦ ?_⟩
      exact hj.ne ((h.getElem_inj_iff).1 (hj'.trans hname.symm))
    rw [hidx]

theorem place_wire_eq_ok_iff (h : n.wires.Nodup) {name : String} {place : Place p} :
    n.place (.wire name) = .ok place ↔ n.wires[place.wire]? = some name ∧ place.coeff = 1 := by
  rw [Netlist.place, bind_eq_ok_iff]
  constructor
  · rintro ⟨i, hi, heq⟩
    obtain rfl := Except.ok.inj heq
    exact ⟨(wireIndex_eq_ok_iff h).1 hi, rfl⟩
  · rintro ⟨hi, hcoeff⟩
    exact ⟨place.wire, (wireIndex_eq_ok_iff h).2 hi, by rw [← hcoeff]; rfl⟩

/-- **A gate is placed by placing its operands.** -/
theorem placeGate_eq_ok_iff (hne : n.wires ≠ []) {g : Gate} {g' : PlacedGate p} :
    n.placeGate g = .ok g' ↔ n.place g.left = .ok g'.left ∧ n.place g.right = .ok g'.right ∧
      n.place g.target = .ok g'.target ∧ g'.op = g.op := by
  have hempty : n.wires.isEmpty = false := by rwa [List.isEmpty_eq_false_iff]
  rw [placeGate, hempty]
  simp only [bind_eq_ok_iff]
  constructor
  · rintro ⟨left, hleft, right, hright, target, htarget, heq⟩
    obtain rfl := Except.ok.inj heq
    exact ⟨hleft, hright, htarget, rfl⟩
  · rintro ⟨hleft, hright, htarget, hop⟩
    exact ⟨_, hleft, _, hright, _, htarget, by rw [← hop]; rfl⟩

/-- Nothing but an operand without a place keeps a gate from having places. -/
theorem exists_placeGate_iff (hne : n.wires ≠ []) {g : Gate} :
    (∃ g' : PlacedGate p, n.placeGate g = .ok g') ↔
      (∃ left : Place p, n.place g.left = .ok left) ∧
      (∃ right : Place p, n.place g.right = .ok right) ∧
      ∃ target : Place p, n.place g.target = .ok target := by
  simp only [placeGate_eq_ok_iff hne]
  constructor
  · rintro ⟨g', hleft, hright, htarget, -⟩
    exact ⟨⟨_, hleft⟩, ⟨_, hright⟩, ⟨_, htarget⟩⟩
  · rintro ⟨⟨left, hleft⟩, ⟨right, hright⟩, ⟨target, htarget⟩⟩
    exact ⟨⟨g.op, left, right, target⟩, hleft, hright, htarget, rfl⟩

theorem getElem_mem_drop {α : Type} {l : List α} {i k : ℕ} (hi : i < l.length) (hk : k ≤ i) :
    l[i] ∈ l.drop k := by
  refine List.mem_drop_iff_getElem.2 ⟨i - k, by omega, ?_⟩
  congr 1
  omega

namespace SingleAssignment

theorem wires_ne_nil (h : n.SingleAssignment) : n.wires ≠ [] := by
  intro hnil
  have hlt := h.inputs_lt
  rw [numWires, hnil] at hlt
  exact Nat.not_lt_zero _ hlt

/-- A target is placed on the wire that it names. -/
theorem target_of_placeGate (h : n.SingleAssignment) {g₀ : Gate} {g : PlacedGate p}
    (hplace : n.placeGate g₀ = .ok g) {name : String} (hname : g₀.target = .wire name) :
    n.wires[g.target.wire]? = some name ∧ g.target.coeff = 1 := by
  obtain ⟨-, -, htarget, -⟩ := (placeGate_eq_ok_iff h.wires_ne_nil).1 hplace
  rwa [hname, place_wire_eq_ok_iff h.nodup] at htarget

/-- The targets are placed after the inputs, on the wires that they name. -/
theorem target_of_mem (h : n.SingleAssignment) (hgs : n.placedGates = .ok gs) {g : PlacedGate p}
    (hg : g ∈ gs) : n.numInputs < g.target.wire ∧ g.target.wire < n.numWires ∧
      g.target.coeff = 1 := by
  obtain ⟨g₀, hg₀, hplace⟩ := exists_of_mem_mapM hgs hg
  obtain ⟨name, hname, hwire⟩ := List.mem_map.1 (h.targets.subset (List.mem_map_of_mem hg₀))
  obtain ⟨htarget, hcoeff⟩ := h.target_of_placeGate hplace hwire.symm
  obtain ⟨hlt, hget⟩ := List.getElem?_eq_some_iff.1 htarget
  obtain ⟨j, hj, hdrop⟩ := List.getElem_of_mem hname
  rw [List.getElem_drop] at hdrop
  have := (h.nodup.getElem_inj_iff).1 (hget.trans hdrop.symm)
  exact ⟨by omega, hlt, hcoeff⟩

/-- Every wire after the inputs is the target of a gate. -/
theorem exists_target_eq (h : n.SingleAssignment) (hgs : n.placedGates = .ok gs) {i : ℕ}
    (hi : n.numInputs < i) (hlt : i < n.numWires) : ∃ g ∈ gs, g.target.wire = i := by
  rw [numWires] at hlt
  have hmem : n.wires[i] ∈ n.wires.drop (n.numInputs + 1) := getElem_mem_drop hlt hi
  obtain ⟨g₀, hg₀, htarget₀⟩ :=
    List.mem_map.1 (h.targets.symm.subset (List.mem_map_of_mem hmem))
  obtain ⟨g, hg, hplace⟩ := exists_of_mapM_eq_ok hgs hg₀
  obtain ⟨_, hget⟩ := List.getElem?_eq_some_iff.1 (h.target_of_placeGate hplace htarget₀).1
  exact ⟨g, hg, (h.nodup.getElem_inj_iff).1 hget⟩

/-- No two gates name the same target. -/
theorem nodup_map_target (h : n.SingleAssignment) : (n.gates.map (·.target)).Nodup := by
  rw [h.targets.nodup_iff]
  exact (h.nodup.sublist (List.drop_sublist _ _)).map fun _ _ heq ↦ Operand.wire.inj heq

/-- **No two gates share a target.** -/
theorem nodup_targets (h : n.SingleAssignment) (hgs : n.placedGates = .ok gs) :
    (gs.map (·.target.wire)).Nodup := by
  have hrel := mapM_eq_ok_iff.1 hgs
  -- the names at the positions of the targets are the targets that the gates name
  have hnames : n.gates.map (·.target) =
      (gs.map (·.target.wire)).map fun i ↦ Operand.wire (n.wires.getD i "") := by
    refine List.ext_getElem (by simp [hrel.length_eq]) fun i hi hi' ↦ ?_
    rw [List.length_map] at hi
    simp only [List.getElem_map]
    have hplace := hrel.get hi (by simpa using hi')
    obtain ⟨name, -, hwire⟩ := List.mem_map.1
      (h.targets.subset (List.mem_map_of_mem (List.getElem_mem hi)))
    have htarget := (h.target_of_placeGate hplace hwire.symm).1
    simp only [List.get_eq_getElem] at htarget
    rw [← hwire, List.getD_eq_getElem?_getD, htarget, Option.getD_some]
  refine List.Nodup.of_map (fun i ↦ Operand.wire (n.wires.getD i "")) ?_
  rw [← hnames]
  exact h.nodup_map_target

end SingleAssignment

/-! ### The first values -/

@[simp] theorem size_initialAssignment (n : Netlist) (x : List (Fp p)) :
    (n.initialAssignment x).size = n.numWires := by
  rw [initialAssignment, List.size_toArray, List.length_take, List.length_append,
    List.length_replicate]
  omega

/-- The constant one and the inputs have values, and no other wire has. -/
theorem value?_initialAssignment (hlt : n.numInputs < n.numWires) (hx : x.length = n.numInputs)
    (i : ℕ) : (n.initialAssignment x).value? i = (1 :: x)[i]? := by
  have hcons : some 1 :: x.map some ++ List.replicate n.numWires none =
      (1 :: x).map some ++ List.replicate n.numWires none := rfl
  rw [initialAssignment, Assignment.value?, List.getElem?_toArray, hcons, List.getElem?_take]
  split
  · rw [List.getElem?_append]
    split
    · next hi => rw [List.getElem?_map]; cases (1 :: x)[i]? <;> rfl
    · next hi =>
      rw [List.length_map] at hi
      rw [List.getElem?_eq_none (Nat.not_lt.1 hi), List.getElem?_replicate]
      split <;> rfl
  · rw [List.getElem?_eq_none]
    · rfl
    · rw [List.length_cons, hx]
      omega

/-- **The gates of a netlist with single assignment can be solved in any order.** -/
theorem SingleAssignment.ready_initialAssignment (h : n.SingleAssignment)
    (hx : x.length = n.numInputs) (hgs : n.placedGates = .ok gs) :
    (n.initialAssignment x).Ready gs where
  nodup := h.nodup_targets hgs
  lt_size g hg := by
    rw [size_initialAssignment]
    exact (h.target_of_mem hgs hg).2.1
  none g hg := by
    rw [value?_initialAssignment h.inputs_lt hx, List.getElem?_eq_none]
    have := (h.target_of_mem hgs hg).1
    rw [List.length_cons, hx]
    omega

/-! ### The witness -/

omit [Modulus p] in
/-- The values are complete exactly when every wire has one. -/
theorem complete_eq_ok_iff {v : Assignment p} {w : List (Fp p)} :
    n.complete v = .ok w ↔ v.toList = w.map some := by
  rw [complete, mapM_eq_ok_iff]
  constructor
  · intro h
    refine List.ext_getElem (by simpa using h.length_eq) fun i hi hi' ↦ ?_
    have := h.get (i := i) (by simpa using hi) (by simpa using hi')
    simp only [List.get_eq_getElem, List.getElem_zipIdx] at this
    split at this
    · next heq => rw [heq, List.getElem_map, Except.ok.inj this]
    · exact nomatch this
  · intro h
    refine List.forall₂_iff_get.2 ⟨by simp [h], fun i hi hi' ↦ ?_⟩
    simp only [List.get_eq_getElem, List.getElem_zipIdx, h, List.getElem_map]

/-- **A witness is found exactly when the gates are placed and settled**, and no wire is left
out. -/
theorem witness_eq_ok_iff {w : List (Fp p)} :
    n.witness x = .ok w ↔ x.length = n.numInputs ∧ n.wires ≠ [] ∧ ∃ gs v,
      n.placedGates = .ok gs ∧ (n.initialAssignment x).settle gs = (v, []) ∧
      v.toList = w.map some := by
  rw [witness]
  by_cases hx : x.length = n.numInputs
  swap
  · rw [if_pos hx]
    exact ⟨fun h ↦ (nomatch h), fun h ↦ absurd h.1 hx⟩
  by_cases hne : n.wires = []
  · rw [if_neg (not_not.2 hx), hne]
    exact ⟨fun h ↦ (nomatch h), fun h ↦ absurd rfl h.2.1⟩
  have hempty : n.wires.isEmpty = false := List.isEmpty_eq_false_iff.2 hne
  rw [if_neg (not_not.2 hx), hempty]
  constructor
  · intro h
    obtain ⟨gs, hgs, h⟩ := bind_eq_ok_iff.1 h
    split at h
    next v waiting hsettle =>
    split at h
    · exact ⟨hx, hne, gs, v, hgs, hsettle, complete_eq_ok_iff.1 h⟩
    · exact nomatch h
  · rintro ⟨-, -, gs, v, hgs, hsettle, hv⟩
    refine bind_eq_ok_iff.2 ⟨gs, hgs, ?_⟩
    rw [hsettle]
    exact complete_eq_ok_iff.2 hv

omit [Modulus p] in
/-- Complete values are the values of the assignment. -/
theorem value?_of_toList_eq {v : Assignment p} {w : List (Fp p)} (h : v.toList = w.map some)
    (i : ℕ) : v.value? i = w[i]? := by
  rw [Assignment.value?, ← Array.getElem?_toList, h, List.getElem?_map]
  cases w[i]? <;> rfl

/-- An assignment of one value to each wire is complete. -/
theorem exists_toList_eq {v : Assignment p} (h : ∀ i < v.size, v.value? i ≠ none) :
    ∃ w : List (Fp p), v.toList = w.map some := by
  refine ⟨v.toList.map (·.getD 0), ?_⟩
  rw [List.map_map]
  refine ((List.map_congr_left fun x? hx? ↦ ?_).trans (List.map_id _)).symm
  obtain ⟨i, hi, rfl⟩ := List.getElem_of_mem hx?
  have hne := h i hi
  rw [Assignment.value?, ← Array.getElem?_toList, List.getElem?_eq_getElem hi, Option.join_some,
    Option.ne_none_iff_exists'] at hne
  obtain ⟨y, hy⟩ := hne
  rw [hy]
  rfl

/-- **A wire that ends without a value is the target of a gate that is left waiting**, since the
constant one and the inputs have values from the start. -/
theorem SingleAssignment.exists_waiting (h : n.SingleAssignment) (hx : x.length = n.numInputs)
    (hgs : n.placedGates = .ok gs) {i : ℕ} (hi : i < n.numWires)
    (hnone : ((n.initialAssignment x).settle gs).1.value? i = none) :
    ∃ g ∈ ((n.initialAssignment x).settle gs).2, g.target.wire = i := by
  obtain ⟨hprogress, -⟩ := Assignment.settle_spec (h.ready_initialAssignment hx hgs)
  rcases Nat.lt_or_ge n.numInputs i with hlt | hle
  · obtain ⟨g, hg, rfl⟩ := h.exists_target_eq hgs hlt hi
    refine ⟨g, (hprogress.settled g hg).resolve_right ?_, rfl⟩
    rintro ⟨y, -, hy⟩
    rw [hnone] at hy
    exact nomatch hy
  · have hnot : ∀ g ∈ gs, g.target.wire ≠ i := fun g hg heq ↦
      absurd (h.target_of_mem hgs hg).1 (by omega)
    have hlen : i < (1 :: x).length := by
      rw [List.length_cons, hx]
      omega
    rw [hprogress.frame i hnot, value?_initialAssignment h.inputs_lt hx,
      List.getElem?_eq_getElem hlen] at hnone
    exact nomatch hnone

/-- **Without waiting gates there is a witness**, and it has the values of the last assignment. -/
theorem SingleAssignment.exists_witness (h : n.SingleAssignment) (hx : x.length = n.numInputs)
    (hgs : n.placedGates = .ok gs) (hwaiting : ((n.initialAssignment x).settle gs).2 = []) :
    ∃ w, n.witness x = .ok w ∧
      ∀ i, w[i]? = ((n.initialAssignment x).settle gs).1.value? i := by
  obtain ⟨hprogress, -⟩ := Assignment.settle_spec (h.ready_initialAssignment hx hgs)
  obtain ⟨w, hw⟩ : ∃ w : List (Fp p),
      ((n.initialAssignment x).settle gs).1.toList = w.map some := by
    refine exists_toList_eq fun i hi hnone ↦ ?_
    rw [hprogress.size_eq, size_initialAssignment] at hi
    obtain ⟨g, hg, -⟩ := h.exists_waiting hx hgs hi hnone
    rw [hwaiting] at hg
    exact absurd hg List.not_mem_nil
  refine ⟨w, witness_eq_ok_iff.2 ⟨hx, h.wires_ne_nil, gs, _, hgs, ?_, hw⟩, fun i ↦ ?_⟩
  · rw [← hwaiting]
  · exact (value?_of_toList_eq hw i).symm

end SuccinctProof.Netlist

/-! ### Solutions -/

namespace SuccinctProof

variable {p : ℕ} [Modulus p]

/-- The value at a place, among the values of all wires. -/
def Place.value (w : List (Fp p)) (place : Place p) : Fp p :=
  place.coeff * w.getD place.wire 0

/-- The values of all wires fit a gate. -/
def PlacedGate.Holds (w : List (Fp p)) (g : PlacedGate p) : Prop :=
  g.op.apply (g.left.value w) (g.right.value w) = g.target.value w

namespace Netlist

/-- Values of all wires that fit the inputs and every gate. -/
structure IsSolution (n : Netlist) (x w : List (Fp p)) : Prop where
  /-- There is one value for each wire. -/
  length_eq : w.length = n.numWires
  /-- The constant one and the inputs come first. -/
  take_eq : w.take (n.numInputs + 1) = 1 :: x
  /-- Every gate has a place, and the values fit. -/
  holds : ∃ gs, n.placedGates = .ok gs ∧ ∀ g ∈ gs, g.Holds w

/-- **The solver computes solutions**, if it computes anything. -/
theorem SingleAssignment.isSolution_of_witness {n : Netlist} (h : n.SingleAssignment)
    {x w : List (Fp p)} (hw : n.witness x = .ok w) : n.IsSolution x w := by
  obtain ⟨hx, -, gs, v, hgs, hsettle, hv⟩ := witness_eq_ok_iff.1 hw
  obtain ⟨hprogress, -⟩ := Assignment.settle_spec (h.ready_initialAssignment hx hgs)
  rw [hsettle] at hprogress
  have hvalue := value?_of_toList_eq hv
  refine ⟨?_, List.ext_getElem? fun i ↦ ?_, gs, hgs, fun g hg ↦ ?_⟩
  · rw [← List.length_map (f := some), ← hv, Array.length_toList, hprogress.size_eq,
      size_initialAssignment]
  · rw [List.getElem?_take, ← hvalue]
    split
    · have hnot : ∀ g ∈ gs, g.target.wire ≠ i := fun g hg heq ↦
        absurd (h.target_of_mem hgs hg).1 (by omega)
      rw [hprogress.frame i hnot, value?_initialAssignment h.inputs_lt hx]
    · rw [List.getElem?_eq_none]
      rw [List.length_cons, hx]
      omega
  · obtain ⟨y, hresult, htarget⟩ := (hprogress.settled g hg).resolve_left List.not_mem_nil
    obtain ⟨a, b, ha, hb, rfl⟩ := Assignment.result?_eq_some_iff.1 hresult
    obtain ⟨a', ha', rfl⟩ := Option.map_eq_some_iff.1 ha
    obtain ⟨b', hb', rfl⟩ := Option.map_eq_some_iff.1 hb
    rw [hvalue] at ha' hb' htarget
    rw [PlacedGate.Holds, Place.value, Place.value, Place.value, (h.target_of_mem hgs hg).2.2,
      one_mul, List.getD_eq_getElem?_getD, List.getD_eq_getElem?_getD,
      List.getD_eq_getElem?_getD, ha', hb', htarget]
    rfl

end Netlist

end SuccinctProof
