import SuccinctProof.Netlist.Basic

/-!
# Flattening a circuit into gates

`Netlist.ofCircuit` turns a circuit into gates and fixes the order of its wires: the constant-one
wire, the inputs, and then every other wire when it is first met. A target and the output wire are
met when their statement starts, an auxiliary wire when it is allocated.

Gates are emitted consumer first. A sum or product with a compound side allocates an auxiliary wire
for that side, emits its own gate, and only then flattens the side into the new wire; with two
compound sides both wires are allocated before either is filled. A power is a chain of
multiplications by its base, highest first.

Auxiliary wires are numbered upwards, and a number whose name is already taken is passed over.
`firstFree` searches as many numbers as there are wires, so the one it stops at is free: the wires
cannot take all of one more number than there are wires.

Names that a circuit may give to its wires are those of `isWireName`. The two built-in wires are
outside that class, so a circuit can read them and never define them.
-/

namespace SuccinctProof

/-- Whether a circuit may give a wire this name: it is not empty, and does not start with the mark
of the built-in wires. -/
def isWireName (name : String) : Bool :=
  match name.toList with
  | [] => false
  | c :: _ => c ≠ '~'

/-- The name of the auxiliary wire with a number. -/
def auxName (k : Nat) : String := "sym_" ++ toString k

/-- The first number from `k` on whose auxiliary name is not taken, after at most `steps` taken
ones. -/
def firstFree (taken : List String) : (steps k : Nat) → Nat
  | 0, k => k
  | steps + 1, k => if auxName k ∈ taken then firstFree taken steps (k + 1) else k

/-- The operand that an expression already is, unless it needs gates. -/
def Expr.operand? : Expr → Option Operand
  | var name => some (.wire name)
  | lit value => some (.lit value)
  | _ => none

/-- A netlist in the making. -/
structure Draft where
  /-- The gates emitted so far. -/
  gates : List Gate
  /-- The wires met so far. -/
  wires : List String
  /-- The number of the auxiliary wire allocated last. -/
  counter : Nat
deriving DecidableEq

namespace Draft

/-- Adds a wire whose name the circuit chose. -/
def declare (d : Draft) (name : String) : Except Error Draft :=
  if !isWireName name then .error (.invalidCircuit (.invalidName name))
  else if name ∈ d.wires then .error (.invalidCircuit (.reassigned name))
  else .ok { d with wires := d.wires ++ [name] }

/-- Allocates an auxiliary wire. -/
def allocate (d : Draft) : String × Draft :=
  let k := firstFree d.wires d.wires.length (d.counter + 1)
  (auxName k, { d with wires := d.wires ++ [auxName k], counter := k })

/-- Appends a gate that gives the wire `target` a value. -/
def emit (d : Draft) (op : ArithOp) (left right : Operand) (target : String) : Draft :=
  { d with gates := d.gates ++ [⟨op, left, right, .wire target⟩] }

/-- The gates of a positive power of an operand: one for the first two powers, and one more for
each further factor. -/
def power (d : Draft) (base : Operand) : (exponent : Nat) → (target : String) → Draft
  | 0, target | 1, target => d.emit .mul base (.lit 1) target
  | 2, target => d.emit .mul base base target
  | n + 3, target =>
    let (aux, d) := d.allocate
    power (d.emit .mul (.wire aux) base target) base (n + 2) aux

/-- The operand that stands for a side of a sum or product. A compound side is given an auxiliary
wire, which is reported too, since it is still to be filled. -/
def side (d : Draft) (e : Expr) : Operand × Option String × Draft :=
  match e.operand? with
  | some operand => (operand, none, d)
  | none =>
    let (aux, d) := d.allocate
    (.wire aux, some aux, d)

/-- The gates that give the wire `target` the value of an expression. -/
def flatten : (target : String) → Expr → Draft → Except Error Draft
  | target, .var name, d => .ok (d.power (.wire name) 1 target)
  | target, .lit value, d => .ok (d.power (.lit value) 1 target)
  | target, .binary op left right, d => do
    let (a, auxLeft, d) := d.side left
    let (b, auxRight, d) := d.side right
    let d := d.emit op a b target
    let d ←
      match auxLeft with
      | some aux => flatten aux left d
      | none => pure d
    match auxRight with
    | some aux => flatten aux right d
    | none => pure d
  | target, .pow base n, d =>
    match base.operand? with
    | none => .error (.invalidCircuit .compoundBase)
    | some operand =>
      if n < 1 then .error (.invalidCircuit (.exponentNotPositive n))
      else .ok (d.power operand n.toNat target)

/-- The gates of a list of statements, of which the last, and no other, returns. -/
def run : List Statement → Draft → Except Error Draft
  | [], _ => .error (.invalidCircuit .missingReturn)
  | .assign target value :: rest, d => do
    let d ← d.declare target
    let d ← flatten target value d
    run rest d
  | .ret value :: rest, d => do
    let d ← flatten outWire value { d with wires := d.wires ++ [outWire] }
    if rest.isEmpty then return d else throw (.invalidCircuit .afterReturn)

end Draft

/-- The netlist of a circuit. -/
def Netlist.ofCircuit (c : Circuit) : Except Error Netlist := do
  let d ← c.inputs.foldlM Draft.declare ⟨[], [oneWire], 0⟩
  let d ← Draft.run c.body d
  return ⟨d.gates, d.wires, c.inputs.length⟩

end SuccinctProof
