import SuccinctProof.Proofs.Netlist.Rows
import SuccinctProof.Proofs.VariableSystem.Rows

/-!
# Replayed constraints

The system that a lawful host builds from a netlist has the columns of the netlist's constraint
system and the same entries in them. Two runs are followed for this. Allocating the wires one after
the other gives the variables `Variable.ofWires`, whatever the host is, and a system that holds the
values of the wires in wire order (`Replay.foldlM_allocateWire`, by `Replay.allocateWire_eq`).
Adding the rows one after the other gives one constraint for each row (`Replay.enforceRows_eq`).

What the finished system holds is therefore known (`VariableSystem.ofValues`): the column of a wire's
variable is the position of the wire, and its value is the value of the wire. `Replay.exists_replays`
puts this together for every netlist whose operands resolve. The two systems then find the same
first violated constraint, except that the vector has a one in the first place for the system over
variables, whatever was supplied.

The number of instance variables is the number of public wires, as far as there are wires, and never
less than one. The number of public wires is computed in 64 binary digits, so the largest number of
inputs leaves the constant one alone (`Replay.largestInputs_numInstance`).
-/

namespace SuccinctProof

variable {p : ℕ} [Modulus p]

/-- A constraint over the variables of wires, given by its three dense rows. -/
def VariableConstraint.ofRows (numPublic : ℕ) (rows : List (Fp p) × List (Fp p) × List (Fp p)) :
    VariableConstraint p where
  left := .ofRow numPublic rows.1
  right := .ofRow numPublic rows.2.1
  product := .ofRow numPublic rows.2.2

namespace VariableSystem

variable {numPublic : ℕ} {values : List (Fp p)} {constraints : List (VariableConstraint p)}

/-- What a system for proving holds when the wires with these values were allocated. -/
def ofValues (numPublic : ℕ) (values : List (Fp p)) (constraints : List (VariableConstraint p)) :
    VariableSystem p where
  purpose := .proving
  numInstance := min (max numPublic 1) values.length
  numWitness := values.length - max numPublic 1
  instanceValues := values.take (max numPublic 1)
  witnessValues := values.drop (max numPublic 1)
  constraints := constraints

/-! ### Allocation -/

theorem empty_eq_ofValues : (empty .proving : VariableSystem p) = ofValues numPublic [1] [] := by
  obtain ⟨k, hk⟩ := Nat.exists_eq_add_one_of_ne_zero (show max numPublic 1 ≠ 0 by omega)
  simp [empty, ofValues, hk]

omit [Modulus p] in
/-- A public wire becomes the next instance variable. -/
theorem newInstance_ofValues (hpos : 0 < values.length) (h : values.length < numPublic) (x : Fp p) :
    (ofValues numPublic values []).newInstance (.ok x) =
      .ok (.ofWire numPublic values.length, ofValues numPublic (values ++ [x]) []) := by
  have hle : values.length + 1 ≤ max numPublic 1 := le_max_of_le_left h
  have hlength : (values ++ [x]).length = values.length + 1 := List.length_append
  refine congrArg Except.ok (Prod.ext ?_ ?_)
  · show Variable.inst (min (max numPublic 1) values.length) = _
    rw [Variable.ofWire_of_lt hpos h, min_eq_right (by omega)]
  · simp only [ofValues, mk.injEq, true_and, and_true]
    refine ⟨by omega, by omega, ?_, ?_⟩
    · rw [List.take_of_length_le (by omega), List.take_of_length_le (hlength.trans_le hle)]
    · rw [List.drop_of_length_le (by omega), List.drop_of_length_le (hlength.trans_le hle)]

omit [Modulus p] in
/-- Any other wire becomes the next witness variable. -/
theorem newWitness_ofValues (hpos : 0 < values.length) (h : numPublic ≤ values.length) (x : Fp p) :
    (ofValues numPublic values []).newWitness (.ok x) =
      .ok (.ofWire numPublic values.length, ofValues numPublic (values ++ [x]) []) := by
  have hle : max numPublic 1 ≤ values.length := max_le h hpos
  have hlength : (values ++ [x]).length = values.length + 1 := List.length_append
  refine congrArg Except.ok (Prod.ext ?_ ?_)
  · show Variable.wit (values.length - max numPublic 1) = _
    rw [Variable.ofWire_of_le hpos h]
  · simp only [ofValues, mk.injEq, true_and, and_true]
    refine ⟨by omega, by omega, ?_, ?_⟩
    · rw [List.take_append_of_le_length hle]
    · rw [List.drop_append_of_le_length hle]

/-! ### Columns and values -/

omit [Modulus p] in
/-- The column of a wire's variable is the position of the wire. -/
theorem column_ofValues {i : ℕ} (hi : i < values.length) :
    (ofValues numPublic values constraints).column (.ofWire numPublic i) = i := by
  rcases Nat.eq_zero_or_pos i with rfl | hpos
  · rfl
  rcases Nat.lt_or_ge i numPublic with hlt | hge
  · rw [Variable.ofWire_of_lt hpos hlt]
    rfl
  · rw [Variable.ofWire_of_le hpos hge]
    show min (max numPublic 1) values.length + (i - max numPublic 1) = i
    omega

/-- The value of a wire's variable is the value of the wire. -/
theorem value?_ofValues (hone : values[0]? = some 1) (i : ℕ) :
    (ofValues numPublic values constraints).value? (.ofWire numPublic i) = values[i]? := by
  rcases Nat.eq_zero_or_pos i with rfl | hpos
  · exact hone.symm
  rcases Nat.lt_or_ge i numPublic with hlt | hge
  · rw [Variable.ofWire_of_lt hpos hlt]
    exact List.getElem?_take_of_lt (by omega)
  · rw [Variable.ofWire_of_le hpos hge]
    show (values.drop (max numPublic 1))[i - max numPublic 1]? = values[i]?
    rw [List.getElem?_drop]
    congr 1
    omega

/-- **The constraint that is found first is the first one whose rows do not hold**, if the variables
of the wires have the values of the wires. -/
theorem firstViolatedOf_ofRows {s : VariableSystem p}
    {rows : List (List (Fp p) × List (Fp p) × List (Fp p))}
    (hvalue : ∀ i < values.length, s.value? (.ofWire numPublic i) = values[i]?)
    (hrows : ∀ t ∈ rows, t.1.length = values.length ∧ t.2.1.length = values.length ∧
      t.2.2.length = values.length) :
    s.firstViolatedOf (rows.map (.ofRows numPublic)) = .ok (rows.findIdx? fun (a, b, c) ↦
      dot a values * dot b values ≠ dot c values) := by
  induction rows with
  | nil => rfl
  | cons t rows ih =>
    obtain ⟨⟨ha, hb, hc⟩, hrows⟩ := List.forall_mem_cons.1 hrows
    have hholds : s.holds? (.ofRows numPublic t) =
        some (decide (dot t.1 values * dot t.2.1 values = dot t.2.2 values)) := by
      rw [holds?, VariableConstraint.ofRows, eval?_ofRow ha hvalue, eval?_ofRow hb hvalue,
        eval?_ofRow hc hvalue]
      rfl
    rw [List.map_cons, firstViolatedOf, hholds, List.findIdx?_cons]
    by_cases hrow : dot t.1 values * dot t.2.1 values = dot t.2.2 values
    · rw [decide_eq_true hrow, ih hrows, if_neg (by simpa using hrow)]
      rfl
    · rw [decide_eq_false hrow, if_pos (by simpa using hrow)]

end VariableSystem

/-! ### The run of a replay -/

namespace Replay

variable {S L : Type} [ConstraintHost S p L] [LawfulConstraintHost S] {r : Replay p}

open ConstraintHost VariableSystem

/-- The new variable of a wire is the variable that it is known to get. -/
theorem newVariable_eq {values : List (Fp p)} {x : Fp p} {s : S} (hpos : 0 < values.length)
    (hx : r.wireValue values.length = .ok x)
    (hs : contents s = ofValues r.netlist.numPublic values []) :
    ∃ s' : S, r.newVariable values.length s =
        .ok (.ofWire r.netlist.numPublic values.length, s') ∧
      contents s' = ofValues r.netlist.numPublic (values ++ [x]) [] := by
  have hnew : ((r.newVariable values.length s).map fun vs ↦ (vs.1, contents vs.2)) =
      .ok (.ofWire r.netlist.numPublic values.length,
        ofValues r.netlist.numPublic (values ++ [x]) []) := by
    rw [newVariable, hx]
    split
    · next hlt => rw [LawfulConstraintHost.newInstance_eq, hs, newInstance_ofValues hpos hlt]
    · next hge =>
      rw [LawfulConstraintHost.newWitness_eq, hs, newWitness_ofValues hpos (Nat.not_lt.1 hge)]
  obtain ⟨⟨v, s'⟩, hstep, hvs⟩ := exists_of_map_eq_ok hnew
  obtain ⟨rfl, hs'⟩ := Prod.mk.inj hvs
  exact ⟨s', hstep, hs'⟩

/-- **A wire is allocated after the others**, with its value. -/
theorem allocateWire_eq {values : List (Fp p)} {x : Fp p} {s : S} (hpos : 0 < values.length)
    (hx : r.wireValue values.length = .ok x)
    (hs : contents s = ofValues r.netlist.numPublic values []) :
    ∃ s' : S, r.allocateWire (Variable.ofWires r.netlist.numPublic values.length, s) values.length =
        .ok (Variable.ofWires r.netlist.numPublic (values.length + 1), s') ∧
      contents s' = ofValues r.netlist.numPublic (values ++ [x]) [] := by
  obtain ⟨s', hstep, hs'⟩ := newVariable_eq hpos hx hs
  refine ⟨s', ?_, hs'⟩
  rw [allocateWire, hstep, Variable.ofWires_succ]
  rfl

/-- **The wires are allocated in their order**, each with its value. -/
theorem foldlM_allocateWire {w values xs : List (Fp p)} {s : S} (hw : r.witness = some w)
    (hpos : 0 < values.length) (hdrop : w.drop values.length = xs)
    (hs : contents s = ofValues r.netlist.numPublic values []) :
    ∃ s' : S, (List.range' values.length xs.length).foldlM r.allocateWire
        (Variable.ofWires r.netlist.numPublic values.length, s) =
        .ok (Variable.ofWires r.netlist.numPublic (values ++ xs).length, s') ∧
      contents s' = ofValues r.netlist.numPublic (values ++ xs) [] := by
  induction xs generalizing values s with
  | nil => exact ⟨s, by rw [List.append_nil]; rfl, by rwa [List.append_nil]⟩
  | cons x xs ih =>
    have hx : r.wireValue values.length = .ok x := by
      have hget : w[values.length]? = some x := by
        rw [← List.head?_drop, hdrop, List.head?_cons]
      rw [wireValue, hw]
      simp only [hget]
    have hlength : (values ++ [x]).length = values.length + 1 := List.length_append
    have hdrop' : w.drop (values ++ [x]).length = xs := by
      rw [hlength, ← List.drop_drop, hdrop, List.drop_one, List.tail_cons]
    obtain ⟨s', hstep, hs'⟩ := allocateWire_eq hpos hx hs
    obtain ⟨s'', hrun, hs''⟩ := ih (hlength ▸ Nat.succ_pos _) hdrop' hs'
    rw [List.append_assoc, List.singleton_append] at hrun hs''
    refine ⟨s'', ?_, hs''⟩
    rw [List.length_cons, List.range'_succ, List.foldlM_cons, hstep, ok_bind, ← hlength, hrun]

/-- A constraint made of three dense rows is put after the others. -/
theorem enforce_eq {numPublic count : ℕ} {a b c : List (Fp p)} {s : S} {values : List (Fp p)}
    {constraints : List (VariableConstraint p)} (ha : a.length = count) (hb : b.length = count)
    (hc : c.length = count) (hs : contents s = ofValues numPublic values constraints) :
    ∃ s' : S, ConstraintHost.enforce (combinationOf S a (Variable.ofWires numPublic count))
        (combinationOf S b (Variable.ofWires numPublic count))
        (combinationOf S c (Variable.ofWires numPublic count)) s = .ok s' ∧
      contents s' = ofValues numPublic values (constraints ++ [.ofRows numPublic (a, b, c)]) := by
  have hcontents := LawfulConstraintHost.enforce_eq (p := p) (L := L)
    (combinationOf S a (Variable.ofWires numPublic count))
    (combinationOf S b (Variable.ofWires numPublic count))
    (combinationOf S c (Variable.ofWires numPublic count)) s
  rw [Combination.terms_combinationOf (S := S) ha, Combination.terms_combinationOf (S := S) hb,
    Combination.terms_combinationOf (S := S) hc, hs] at hcontents
  exact exists_of_map_eq_ok hcontents

/-- **A constraint is added for each row**, after the others. -/
theorem enforceRows_eq {numPublic count : ℕ} {as bs cs : List (List (Fp p))} {s : S}
    {values : List (Fp p)} {constraints : List (VariableConstraint p)}
    (hb : bs.length = as.length) (hc : cs.length = as.length)
    (hrows : ∀ t ∈ as.zip (bs.zip cs), t.1.length = count ∧ t.2.1.length = count ∧
      t.2.2.length = count) (hs : contents s = ofValues numPublic values constraints) :
    ∃ s' : S, enforceRows (Variable.ofWires numPublic count) as bs cs s = .ok s' ∧
      contents s' = ofValues numPublic values
        (constraints ++ (as.zip (bs.zip cs)).map (.ofRows numPublic)) := by
  induction as generalizing bs cs s constraints with
  | nil => exact ⟨s, rfl, by rwa [List.zip_nil_left, List.map_nil, List.append_nil]⟩
  | cons a as ih =>
    obtain ⟨b, bs, rfl⟩ := List.exists_cons_of_length_eq_add_one hb
    obtain ⟨c, cs, rfl⟩ := List.exists_cons_of_length_eq_add_one hc
    rw [List.zip_cons_cons, List.zip_cons_cons] at hrows ⊢
    obtain ⟨⟨ha, hb', hc'⟩, hrows⟩ := List.forall_mem_cons.1 hrows
    obtain ⟨s', hstep, hs'⟩ := enforce_eq ha hb' hc' hs
    obtain ⟨s'', hrun, hs''⟩ := ih (Nat.succ.inj hb) (Nat.succ.inj hc) hrows hs'
    refine ⟨s'', ?_, ?_⟩
    · rw [enforceRows, hstep, ok_bind, hrun]
    · rw [hs'', List.map_cons, List.append_assoc, List.singleton_append]

variable {n : Netlist} {m : RankOneSystem p} {x : Fp p} {xs : List (Fp p)}

/-- The rows of a netlist's constraint system have one entry for each wire. -/
theorem length_rows (hm : RankOneSystem.ofNetlist n = .ok m) : ∀ t ∈ m.rows,
    t.1.length = n.numWires ∧ t.2.1.length = n.numWires ∧ t.2.2.length = n.numWires := by
  have hrow := Netlist.length_row_of_ofNetlist hm
  intro t ht
  obtain ⟨ha, hbc⟩ := List.of_mem_zip ht
  obtain ⟨hb, hc⟩ := List.of_mem_zip hbc
  refine ⟨hrow _ ?_, hrow _ ?_, hrow _ ?_⟩ <;> simp [ha, hb, hc]

/-- **A replay runs to its end**, and then the system holds the values of the wires, after the
constant one, and a constraint for each row. -/
theorem exists_build (hm : RankOneSystem.ofNetlist n = .ok m)
    (hw : (x :: xs).length = n.numWires) :
    ∃ (r : Replay p) (s : S), new n (some (x :: xs)) = .ok r ∧ r.build .proving = .ok s ∧
      contents s = ofValues n.numPublic (1 :: xs) (m.rows.map (.ofRows n.numPublic)) := by
  have hsame := (Netlist.isSystem_of_ofNetlist hm).sameHeight
  have hnew : new n (some (x :: xs)) = .ok ⟨n, m, some (x :: xs)⟩ := by
    rw [new]
    dsimp only
    rw [if_neg (not_not.2 hw), hm]
    rfl
  have hstart : contents (start .proving : S) = ofValues n.numPublic [1] [] :=
    (LawfulConstraintHost.contents_start _).trans empty_eq_ofValues
  have hdrop : (x :: xs).drop ([1] : List (Fp p)).length = xs := rfl
  obtain ⟨s, hrun, hs⟩ := foldlM_allocateWire (S := S) (r := ⟨n, m, some (x :: xs)⟩) rfl
    (List.length_pos_of_mem List.mem_cons_self) hdrop hstart
  have hallocate : allocate ⟨n, m, some (x :: xs)⟩ (start .proving : S) =
      .ok (Variable.ofWires n.numPublic n.numWires, s) := by
    rw [allocate, ← hw]
    exact hrun
  obtain ⟨s', henforce, hs'⟩ := enforceRows_eq hsame.length_b hsame.length_c (length_rows hm) hs
  refine ⟨_, s', hnew, ?_, hs'⟩
  rw [build, generate, hallocate, ok_bind]
  exact henforce

/-! ### The replayed system -/

/-- A host's system over variables is the system `m` over wires, with the values `w`. -/
structure Replays (s : S) (m : RankOneSystem p) (w : List (Fp p)) : Prop where
  /-- The values of the variables are those of the wires, after the constant one. -/
  values_eq : (contents s).instanceValues ++ (contents s).witnessValues = 1 :: w.tail
  /-- Every instance variable has a value. -/
  length_instanceValues : (contents s).instanceValues.length = (contents s).numInstance
  /-- Every witness variable has a value. -/
  length_witnessValues : (contents s).witnessValues.length = (contents s).numWitness
  /-- The exported rows of the left factors have the same entries. -/
  left : List.Forall₂ SparseRow.Represents (leftRows s) m.a
  /-- The exported rows of the right factors have the same entries. -/
  right : List.Forall₂ SparseRow.Represents (rightRows s) m.b
  /-- The exported rows of the products have the same entries. -/
  product : List.Forall₂ SparseRow.Represents (productRows s) m.c

/-- Rows over the variables of wires are exported as the dense rows. -/
theorem forall₂_represents {α : Type} {numPublic : ℕ} {column : Variable → ℕ} {count : ℕ}
    (hcolumn : ∀ i < count, column (.ofWire numPublic i) = i) {l : List α} {row : α → List (Fp p)}
    (hrow : ∀ t ∈ l, (row t).length = count) :
    List.Forall₂ SparseRow.Represents
      (l.map fun t ↦ (Combination.ofRow numPublic (row t)).row column) (l.map row) := by
  rw [List.forall₂_map_left_iff, List.forall₂_map_right_iff, List.forall₂_same]
  exact fun t ht ↦ Combination.represents_row fun i hi ↦ hcolumn i (hrow t ht ▸ hi)

/-- The system that holds the values of the wires and the rows is the one over wires. -/
theorem replays_of_contents {s : S} (hm : RankOneSystem.ofNetlist n = .ok m)
    (hw : (x :: xs).length = n.numWires)
    (hs : contents s = ofValues n.numPublic (1 :: xs) (m.rows.map (.ofRows n.numPublic))) :
    Replays s m (x :: xs) := by
  have hsame := (Netlist.isSystem_of_ofNetlist hm).sameHeight
  have hrows := length_rows hm
  have hcolumn : ∀ i < n.numWires, column s (.ofWire n.numPublic i) = i := by
    intro i hi
    rw [LawfulConstraintHost.column_eq, hs]
    exact column_ofValues (hw ▸ hi)
  refine ⟨?_, ?_, ?_, ?_, ?_, ?_⟩
  · rw [hs]
    exact List.take_append_drop ..
  · rw [hs]
    exact List.length_take
  · rw [hs]
    exact List.length_drop
  · rw [LawfulConstraintHost.leftRows_eq, hs, ← RankOneSystem.map_fst_rows hsame]
    simp only [ofValues, List.map_map]
    exact forall₂_represents hcolumn fun t ht ↦ (hrows t ht).1
  · rw [LawfulConstraintHost.rightRows_eq, hs, ← RankOneSystem.map_snd_fst_rows hsame]
    simp only [ofValues, List.map_map]
    exact forall₂_represents hcolumn fun t ht ↦ (hrows t ht).2.1
  · rw [LawfulConstraintHost.productRows_eq, hs, ← RankOneSystem.map_snd_snd_rows hsame]
    simp only [ofValues, List.map_map]
    exact forall₂_represents hcolumn fun t ht ↦ (hrows t ht).2.2

/-- **The same constraint is found first.** -/
theorem firstViolated_of_contents {s : S} (hm : RankOneSystem.ofNetlist n = .ok m)
    (hw : (x :: xs).length = n.numWires)
    (hs : contents s = ofValues n.numPublic (1 :: xs) (m.rows.map (.ofRows n.numPublic))) :
    firstViolated s = m.firstViolated (1 :: xs) := by
  have hsystem := Netlist.isSystem_of_ofNetlist hm
  have hlength : (1 :: xs : List (Fp p)).length = n.numWires := hw
  have hrows := length_rows hm
  rw [← hlength] at hrows
  rw [LawfulConstraintHost.firstViolated_eq, hs,
    RankOneSystem.firstViolated_eq_findIdx? hsystem.sameHeight
      (hlength.trans hsystem.numWires_eq.symm)]
  exact firstViolatedOf_ofRows (fun i _ ↦ value?_ofValues rfl i) hrows

/-- Only the largest number of inputs is counted wrongly, when there is anything to count. -/
theorem min_numPublic_eq_iff (hne : n.wires ≠ []) (hlt : n.numInputs < UInt64.size) :
    min (max n.numPublic 1) n.numWires = min (n.numInputs + 1) n.numWires ↔
      n.numInputs + 1 ≠ UInt64.size ∨ n.numWires = 1 := by
  have hpos : 0 < n.numWires := List.length_pos_iff.2 hne
  rw [Netlist.numPublic]
  rcases Nat.lt_or_ge (n.numInputs + 1) UInt64.size with hsmall | hlarge
  · rw [Nat.mod_eq_of_lt hsmall]
    omega
  · -- one more than the largest number is zero
    have hlargest : n.numInputs + 1 = UInt64.size := by omega
    have hsize : UInt64.size ≠ 1 := by decide
    rw [hlargest, Nat.mod_self]
    omega

/-- **A netlist whose operands resolve is replayed without loss**, by every lawful host. Take a
netlist with a wire whose operands are literals or names of wires, and a value for each wire. Both
constraint systems exist, the one over variables has the entries and the values of the one over
wires, and they find the same first violated constraint when the first value is a one, or is replaced
by a one for the system over wires.

There are as many instance variables as public wires, as far as there are wires. Among the numbers
of inputs that 64 binary digits can hold this is one more than the number of inputs, the largest one
excepted unless there is one wire only. -/
theorem exists_replays (S : Type) {L : Type} [ConstraintHost S p L] [LawfulConstraintHost S]
    {w : List (Fp p)} (hne : n.wires ≠ []) (hn : n.Resolved) (hw : w.length = n.numWires) :
    ∃ (m : RankOneSystem p) (r : Replay p) (s : S), RankOneSystem.ofNetlist n = .ok m ∧
      new n (some w) = .ok r ∧ r.build .proving = .ok s ∧ Replays s m w ∧
      (contents s).numInstance = min (max n.numPublic 1) n.numWires ∧
      (n.numInputs < UInt64.size →
        ((contents s).numInstance = min (n.numInputs + 1) n.numWires ↔
          n.numInputs + 1 ≠ UInt64.size ∨ n.numWires = 1)) ∧
      (∃ found, firstViolated s = .ok found ∧ m.firstViolated (w.set 0 1) = .ok found) ∧
      (w.head? = some 1 → firstViolated s = m.firstViolated w) := by
  obtain ⟨m, hm⟩ := (Netlist.exists_system_iff (p := p) hne).2 hn
  have hsystem := Netlist.isSystem_of_ofNetlist hm
  have hpos : 0 < w.length := by
    rw [hw]
    exact List.length_pos_iff.2 hne
  obtain ⟨x, xs, rfl⟩ := List.exists_cons_of_length_pos hpos
  obtain ⟨r, s, hnew, hbuild, hs⟩ := exists_build (S := S) hm hw
  have hcount : (contents s).numInstance = min (max n.numPublic 1) n.numWires := by
    rw [hs, ← hw]
    rfl
  have hfirst := firstViolated_of_contents hm hw hs
  have hfound := RankOneSystem.firstViolated_eq_findIdx? hsystem.sameHeight (w := 1 :: xs)
    (hw.trans hsystem.numWires_eq.symm)
  refine ⟨m, r, s, hm, hnew, hbuild, replays_of_contents hm hw hs, hcount, ?_,
    ⟨_, hfirst.trans hfound, hfound⟩, fun hhead ↦ ?_⟩
  · rw [hcount]
    exact min_numPublic_eq_iff hne
  · obtain rfl : x = 1 := Option.some.inj hhead
    exact hfirst

/-- The square of one wire on another. -/
def squareNetlist (numInputs : ℕ) : Netlist where
  gates := [⟨.mul, .wire "x", .wire "x", .wire "y"⟩]
  wires := ["~one", "x", "y"]
  numInputs := numInputs

/-- The first value does not matter to the system over variables. -/
theorem squareNetlist_replays :
    (squareNetlist 1).wires ≠ [] ∧ (squareNetlist 1).Resolved ∧
    ([7, 3, 9] : List (Fp 101)).length = (squareNetlist 1).numWires ∧
    ∃ (m : RankOneSystem 101) (r : Replay 101) (s : VariableSystem 101),
      RankOneSystem.ofNetlist (squareNetlist 1) = .ok m ∧
      new (squareNetlist 1) (some [7, 3, 9]) = .ok r ∧ r.build .proving = .ok s ∧
      Replays s m [7, 3, 9] ∧ s.numInstance = 2 ∧ s.firstViolated = .ok none := by
  have hne : (squareNetlist 1).wires ≠ [] := by decide
  have hn : (squareNetlist 1).Resolved := by decide
  have hw : ([7, 3, 9] : List (Fp 101)).length = (squareNetlist 1).numWires := rfl
  obtain ⟨m, r, s, hm, hnew, hbuild, hreplays, hinstance, -, ⟨found, hfound, hm'⟩, -⟩ :=
    exists_replays (VariableSystem 101) hne hn hw
  refine ⟨hne, hn, hw, m, r, s, hm, hnew, hbuild, hreplays, hinstance, ?_⟩
  obtain rfl : _ = m := Except.ok.inj hm
  refine hfound.trans (hm'.symm.trans ?_)
  decide

/-- **The largest number of inputs leaves one instance variable**, though there are three wires. -/
theorem largestInputs_numInstance :
    (squareNetlist (UInt64.size - 1)).Resolved ∧
    ∃ s : VariableSystem 101,
      ofNetlist (squareNetlist (UInt64.size - 1)) .proving (some [1, 3, 9]) = .ok s ∧
      s.numInstance = 1 ∧ s.numInstance ≠
        min ((squareNetlist (UInt64.size - 1)).numInputs + 1)
          (squareNetlist (UInt64.size - 1)).numWires :=
  ⟨by decide, _, rfl, by decide, by decide⟩

end Replay

end SuccinctProof
