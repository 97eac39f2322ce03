import SuccinctProof.Proofs.Field
import SuccinctProof.Proofs.Netlist.Flattening

/-!
# The values that gates derive

Gates are emitted consumer first, so following them in their order says nothing about values.
`Derives` is the order in which values can be computed instead: a literal has its value, a known
wire has the value it is known by, and the target of a gate has a value once both operands have one.
It looks at gates as a set, which makes it monotone in everything that flattening still adds.

Flattening an expression makes its value derivable on the target wire, and gives every new gate
operands with values (`Draft.Feeds`). Both are proved along the expression
(`Draft.derives_of_flatten`), with one lemma for the chain of a power.
-/

namespace SuccinctProof

variable {p : ℕ} [Modulus p]

/-- **The values of operands that follow from gates and from wires with known values.** -/
inductive Derives (gates : List Gate) (known : String → Option (Fp p)) : Operand → Fp p → Prop
  /-- A literal has its residue as value. -/
  | lit (k : ℤ) : Derives gates known (.lit k) (Fp.ofInt k)
  /-- A wire has the value it is known by. -/
  | known {name : String} {y : Fp p} (h : known name = some y) : Derives gates known (.wire name) y
  /-- The target of a gate has the result of its operands. -/
  | gate {g : Gate} {a b : Fp p} (hg : g ∈ gates) (left : Derives gates known g.left a)
    (right : Derives gates known g.right b) : Derives gates known g.target (g.op.apply a b)

/-- Both operands of a gate have a value. -/
def Gate.Fed (gates : List Gate) (known : String → Option (Fp p)) (g : Gate) : Prop :=
  (∃ a, Derives gates known g.left a) ∧ ∃ b, Derives gates known g.right b

/-! ### Expressions -/

namespace Expr

/-- The wires that an expression reads. -/
def vars : Expr → List String
  | var name => [name]
  | lit _ => []
  | binary _ left right => left.vars ++ right.vars
  | pow base _ => base.vars

theorem eval_binary_eq_some_iff {env : String → Option (Fp p)} {op : ArithOp} {l r : Expr}
    {y : Fp p} : (binary op l r).eval env = some y ↔
      ∃ a b, l.eval env = some a ∧ r.eval env = some b ∧ op.apply a b = y := by
  rw [eval]
  cases l.eval env <;> cases r.eval env <;> simp

theorem eval_pow_eq_some_iff {env : String → Option (Fp p)} {base : Expr} {n : ℤ} {y : Fp p} :
    (pow base n).eval env = some y ↔ ∃ b, base.eval env = some b ∧ b ^ n.toNat = y := by
  rw [eval]
  cases base.eval env <;> simp

/-- More values of wires leave the value of an expression as it is. -/
theorem eval_mono {env env' : String → Option (Fp p)}
    (h : ∀ name y, env name = some y → env' name = some y) {e : Expr} :
    ∀ {y : Fp p}, e.eval env = some y → e.eval env' = some y := by
  induction e with
  | var name => exact h name _
  | lit k => exact id
  | binary op l r ihl ihr =>
    intro y hy
    obtain ⟨a, b, ha, hb, rfl⟩ := eval_binary_eq_some_iff.1 hy
    exact eval_binary_eq_some_iff.2 ⟨a, b, ihl ha, ihr hb, rfl⟩
  | pow base n ih =>
    intro y hy
    obtain ⟨b, hb, rfl⟩ := eval_pow_eq_some_iff.1 hy
    exact eval_pow_eq_some_iff.2 ⟨b, ih hb, rfl⟩

/-- An expression has a value when every wire that it reads has one. -/
theorem exists_eval {env : String → Option (Fp p)} {e : Expr}
    (h : ∀ name ∈ e.vars, env name ≠ none) : ∃ y, e.eval env = some y := by
  induction e with
  | var name => exact Option.ne_none_iff_exists'.1 (h name List.mem_cons_self)
  | lit k => exact ⟨Fp.ofInt k, rfl⟩
  | binary op l r ihl ihr =>
    obtain ⟨a, ha⟩ := ihl fun name hname ↦ h name (List.mem_append_left _ hname)
    obtain ⟨b, hb⟩ := ihr fun name hname ↦ h name (List.mem_append_right _ hname)
    exact ⟨_, eval_binary_eq_some_iff.2 ⟨a, b, ha, hb, rfl⟩⟩
  | pow base n ih =>
    obtain ⟨b, hb⟩ := ih h
    exact ⟨_, eval_pow_eq_some_iff.2 ⟨b, hb, rfl⟩⟩

end Expr

namespace Draft

/-! ### Fed gates -/

variable {gates : List Gate} {known : String → Option (Fp p)}

/-- The gates that the second draft has and the first has not are fed. -/
def Feeds (gates : List Gate) (known : String → Option (Fp p)) (d d' : Draft) : Prop :=
  ∀ g ∈ d'.gates, g ∈ d.gates ∨ g.Fed gates known

theorem Feeds.refl (d : Draft) : Feeds gates known d d := fun _ hg ↦ .inl hg

theorem Feeds.trans {d d' d'' : Draft} (h : Feeds gates known d d')
    (h' : Feeds gates known d' d'') : Feeds gates known d d'' :=
  fun g hg ↦ (h' g hg).elim (h g) .inr

section Emit

variable {d : Draft} {op : ArithOp} {left right : Operand} {target : String} {a b : Fp p}

theorem feeds_emit (ha : Derives gates known left a) (hb : Derives gates known right b) :
    Feeds gates known d (d.emit op left right target) := by
  intro g hg
  rcases List.mem_append.1 hg with hg | hg
  · exact .inl hg
  · obtain rfl := List.mem_singleton.1 hg
    exact .inr ⟨⟨a, ha⟩, ⟨b, hb⟩⟩

theorem derives_emit (hsub : (d.emit op left right target).gates ⊆ gates)
    (ha : Derives gates known left a) (hb : Derives gates known right b) :
    Derives gates known (.wire target) (op.apply a b) := by
  have hmem : (⟨op, left, right, .wire target⟩ : Gate) ∈ (d.emit op left right target).gates :=
    List.mem_append_right _ (List.mem_singleton_self _)
  exact .gate (hsub hmem) ha hb

end Emit

/-! ### Powers -/

/-- **A chain of multiplications derives the power**, from its last gate to its first. -/
theorem derives_power {base : Operand} {b : Fp p} (hbase : Derives gates known base b) (n : ℕ) :
    n ≠ 0 → ∀ {d : Draft} {target : String}, (d.power base n target).gates ⊆ gates →
      Derives gates known (.wire target) (b ^ n) ∧
        Feeds gates known d (d.power base n target) := by
  induction n using Nat.strongRecOn with
  | ind n ih =>
    intro hn d target hsub
    match n with
    | 0 => exact absurd rfl hn
    | 1 =>
      have hone : Derives gates known (.lit 1) (1 : Fp p) := .lit 1
      have hpow : b ^ 1 = ArithOp.mul.apply b 1 := by rw [pow_one, ArithOp.apply, mul_one]
      exact ⟨hpow ▸ derives_emit hsub hbase hone, feeds_emit hbase hone⟩
    | 2 =>
      have hpow : b ^ 2 = ArithOp.mul.apply b b := sq b
      exact ⟨hpow ▸ derives_emit hsub hbase hbase, feeds_emit hbase hbase⟩
    | n + 3 =>
      -- the last gate is emitted first, and the rest of the chain fills the wire that it reads
      set d₁ := d.allocate.2.emit .mul (.wire d.allocate.1) base target with hd₁
      rw [show d.power base (n + 3) target = d₁.power base (n + 2) d.allocate.1 from rfl]
        at hsub ⊢
      obtain ⟨haux, hfeeds⟩ := ih (n + 2) (by omega) (by omega) hsub
      obtain ⟨added, hcontinues⟩ := exists_continues_power base (n + 2) d₁ d.allocate.1
      have hsub₁ : d₁.gates ⊆ gates := List.Subset.trans hcontinues.gates_subset hsub
      have hpow : b ^ (n + 3) = ArithOp.mul.apply (b ^ (n + 2)) b := pow_succ b (n + 2)
      refine ⟨hpow ▸ derives_emit hsub₁ haux hbase, .trans ?_ hfeeds⟩
      exact feeds_emit (d := d.allocate.2) haux hbase

/-! ### Expressions -/

/-- The values of wires are derivable. -/
def DerivesAll (gates : List Gate) (known env : String → Option (Fp p)) : Prop :=
  ∀ name y, env name = some y → Derives gates known (.wire name) y

variable {env : String → Option (Fp p)}

/-- An expression that needs no gates is derivable as it stands. -/
theorem derives_operand (henv : DerivesAll gates known env) {e : Expr} {o : Operand} {y : Fp p}
    (ho : e.operand? = some o) (hy : e.eval env = some y) : Derives gates known o y := by
  cases e with
  | var name => exact Option.some.inj ho ▸ henv name y hy
  | lit k =>
    obtain rfl := Option.some.inj ho
    exact Option.some.inj hy ▸ .lit k
  | binary op l r => exact nomatch ho
  | pow base n => exact nomatch ho

/-- **A side is derivable once it has been filled.** A side without gates is so at once. -/
theorem derives_of_fill (henv : DerivesAll gates known env) {e : Expr}
    (ih : ∀ {target : String} {d d' : Draft} {y : Fp p}, flatten target e d = .ok d' →
      d'.gates ⊆ gates → e.eval env = some y →
      Derives gates known (.wire target) y ∧ Feeds gates known d d')
    {d₀ d d' : Draft} {y : Fp p} (h : fill (d₀.side e).2.1 e d = .ok d') (hsub : d'.gates ⊆ gates)
    (hy : e.eval env = some y) :
    Derives gates known (d₀.side e).1 y ∧ Feeds gates known d d' := by
  cases ho : e.operand? with
  | some o =>
    rw [side, ho] at h ⊢
    obtain rfl := Except.ok.inj h
    exact ⟨derives_operand henv ho hy, .refl d⟩
  | none =>
    rw [side, ho] at h ⊢
    exact ih h hsub hy

omit [Modulus p] in
theorem gates_side (d : Draft) (e : Expr) : (d.side e).2.2.gates = d.gates := by
  rw [side]
  split <;> rfl

/-- **A flattened expression is derivable on its target, from gates that are all fed.** Induction on
the expression. The gates that come later do not matter, since `gates` may hold more than those of
the draft. -/
theorem derives_of_flatten (henv : DerivesAll gates known env) {e : Expr} :
    ∀ {target : String} {d d' : Draft} {y : Fp p}, flatten target e d = .ok d' →
      d'.gates ⊆ gates → e.eval env = some y →
      Derives gates known (.wire target) y ∧ Feeds gates known d d' := by
  induction e with
  | var name =>
    intro target d d' y h hsub hy
    rw [flatten] at h
    obtain rfl := Except.ok.inj h
    have hpower := derives_power (henv name y hy) 1 Nat.one_ne_zero hsub
    rwa [pow_one] at hpower
  | lit k =>
    intro target d d' y h hsub hy
    rw [flatten] at h
    obtain rfl := Except.ok.inj h
    obtain rfl := Option.some.inj hy
    have hlit : Derives gates known (.lit k) (Fp.ofInt k) := .lit k
    have hpower := derives_power hlit 1 Nat.one_ne_zero hsub
    rwa [pow_one] at hpower
  | binary op l r ihl ihr =>
    intro target d d' y h hsub hy
    rw [flatten_binary] at h
    obtain ⟨d₃, hleft, hright⟩ := bind_eq_ok_iff.1 h
    obtain ⟨a, b, ha, hb, rfl⟩ := Expr.eval_binary_eq_some_iff.1 hy
    -- gates are only added, so `gates` holds those of every draft on the way
    obtain ⟨addedRight, hcontinues⟩ := exists_continues_fill exists_continues_of_flatten hright
    have hsub₃ : d₃.gates ⊆ gates := List.Subset.trans hcontinues.gates_subset hsub
    obtain ⟨addedLeft, hcontinues⟩ := exists_continues_fill exists_continues_of_flatten hleft
    have hsub₂ := List.Subset.trans hcontinues.gates_subset hsub₃
    obtain ⟨hl, hfeedsLeft⟩ := derives_of_fill henv ihl hleft hsub₃ ha
    obtain ⟨hr, hfeedsRight⟩ := derives_of_fill henv ihr hright hsub hb
    have hemit : Feeds gates known ((d.side l).2.2.side r).2.2
        (((d.side l).2.2.side r).2.2.emit op (d.side l).1 ((d.side l).2.2.side r).1 target) :=
      feeds_emit hl hr
    have hsides : Feeds gates known d ((d.side l).2.2.side r).2.2 := by
      intro g hg
      rw [gates_side, gates_side] at hg
      exact .inl hg
    exact ⟨derives_emit hsub₂ hl hr, ((hsides.trans hemit).trans hfeedsLeft).trans hfeedsRight⟩
  | pow base n =>
    intro target d d' y h hsub hy
    obtain ⟨operand, ho, hn, rfl⟩ := flatten_pow_eq_ok_iff.1 h
    obtain ⟨b, hb, rfl⟩ := Expr.eval_pow_eq_some_iff.1 hy
    exact derives_power (derives_operand henv ho hb) n.toNat (by omega) hsub

end Draft

end SuccinctProof
