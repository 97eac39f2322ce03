import SuccinctProof.Netlist.Basic

/-!
# Solving for the wire values

`Netlist.witness` computes a value for every wire from values for the inputs. It knows the
constant-one wire and the inputs, and then sweeps over the gates: a gate whose operands both have a
value gives its target one, at once, so that later gates of the same sweep see it; any other gate
waits for the next sweep.

A sweep that settles no gate changes nothing, and every other one settles at least one. So as many
sweeps as there are gates leave only gates that no further sweep settles, and the number of sweeps
can be fixed in advance (`settle`). What fails is then read off the first gate left waiting.
-/

namespace SuccinctProof

variable {p : Nat} [Modulus p]

/-- The values known so far, one entry for each wire. -/
abbrev Assignment (p : Nat) : Type := Array (Option (Fp p))

namespace Assignment

/-- The value of a wire, if it has one. -/
def value? (v : Assignment p) (wire : Nat) : Option (Fp p) := (v[wire]?).join

/-- Gives a wire a value, whether it had one or not. -/
def assign (v : Assignment p) (wire : Nat) (x : Fp p) : Assignment p :=
  v.setIfInBounds wire (some x)

/-- The value of an operand: the value of its wire times its coefficient. -/
def operand? (v : Assignment p) (place : Place p) : Option (Fp p) :=
  (v.value? place.wire).map (place.coeff * ·)

/-- The result of a gate, if both operands have a value. -/
def result? (v : Assignment p) (g : PlacedGate p) : Option (Fp p) := do
  return g.op.apply (← v.operand? g.left) (← v.operand? g.right)

/-- One sweep over waiting gates: the values after it, and the gates still waiting. -/
def sweep : Assignment p → List (PlacedGate p) → Assignment p × List (PlacedGate p)
  | v, [] => (v, [])
  | v, g :: gates =>
    match v.result? g with
    | some x => sweep (v.assign g.target.wire x) gates
    | none =>
      let (v, waiting) := sweep v gates
      (v, g :: waiting)

/-- A number of sweeps, one after the other. -/
def sweeps : Nat → Assignment p → List (PlacedGate p) → Assignment p × List (PlacedGate p)
  | 0, v, gates => (v, gates)
  | n + 1, v, gates =>
    let (v, waiting) := sweep v gates
    sweeps n v waiting

/-- As many sweeps as there are gates, after which another one would change nothing. -/
def settle (v : Assignment p) (gates : List (PlacedGate p)) :
    Assignment p × List (PlacedGate p) :=
  sweeps gates.length v gates

end Assignment

namespace Netlist

/-- The values known before any gate has run: one on the first wire, the inputs on the next ones,
as far as there are wires. -/
def initialAssignment (n : Netlist) (inputs : List (Fp p)) : Assignment p :=
  ((some 1 :: inputs.map some ++ List.replicate n.numWires none).take n.numWires).toArray

/-- The complaint that a wire never gets a value. -/
def unassigned (n : Netlist) (wire : Nat) : Error :=
  .invalidCircuit (.unassigned (n.wires.getD wire ""))

/-- The values of all wires, refused at the first wire without one. -/
def complete (n : Netlist) (v : Assignment p) : Except Error (List (Fp p)) :=
  v.toList.zipIdx.mapM fun (x?, wire) ↦
    match x? with
    | some x => .ok x
    | none => .error (n.unassigned wire)

/-- The values of all wires that follow from values for the inputs. Refused for another number of
inputs, without a wire for the constant one, for an operand that names no wire, and when a wire gets
no value, in this order. -/
def witness (n : Netlist) (inputs : List (Fp p)) : Except Error (List (Fp p)) := do
  if inputs.length ≠ n.numInputs then
    throw (.witnessLength n.numInputs inputs.length)
  if n.wires.isEmpty then throw .missingEntry
  let gates ← n.placedGates
  let (v, waiting) := (n.initialAssignment inputs).settle gates
  match waiting with
  | [] => n.complete v
  | g :: _ =>
    let stuck := if (v.value? g.left.wire).isNone then g.left.wire else g.right.wire
    throw (n.unassigned stuck)

end Netlist

end SuccinctProof
