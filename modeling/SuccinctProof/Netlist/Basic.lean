import SuccinctProof.Circuit

/-!
# Netlists

A netlist is a list of gates over an ordered list of named wires. Every gate has two operands and a
target, and either adds or multiplies. The first wire carries the constant one, the inputs come
next, and all other wires follow.

An operand names a wire or is a literal. Its *place* (`Place`) is a position in the wire order with
a coefficient: a named wire stands at its first position with coefficient one, and a literal stands
on the constant-one wire with its value as coefficient. Both consumers of a netlist, the solver for
wire values and the constraint matrices, see its gates only through their places.
-/

namespace SuccinctProof

/-- The wire that carries the constant one. -/
def oneWire : String := "~one"

/-- The wire that carries the returned value. -/
def outWire : String := "~out"

/-- What a gate reads or writes. -/
inductive Operand where
  /-- A named wire. -/
  | wire (name : String)
  /-- A literal. -/
  | lit (value : Int)
deriving DecidableEq

/-- An elementary step: `target` is `left` combined with `right`. -/
structure Gate where
  /-- The operation. -/
  op : ArithOp
  /-- The left operand. -/
  left : Operand
  /-- The right operand. -/
  right : Operand
  /-- The result. -/
  target : Operand
deriving DecidableEq

/-- Gates over an ordered list of wires. -/
structure Netlist where
  /-- The gates, in the order in which they were emitted. -/
  gates : List Gate
  /-- The names of the wires; a wire is referred to by its position. -/
  wires : List String
  /-- The number of inputs, which stand directly after the constant-one wire. -/
  numInputs : Nat
deriving DecidableEq

/-- A wire position with a coefficient. -/
structure Place (p : Nat) where
  /-- The position of the wire. -/
  wire : Nat
  /-- The factor by which the value of the wire counts. -/
  coeff : Fp p
deriving DecidableEq

/-- A gate whose operands have been looked up in the wire order. -/
structure PlacedGate (p : Nat) where
  /-- The operation. -/
  op : ArithOp
  /-- The left operand. -/
  left : Place p
  /-- The right operand. -/
  right : Place p
  /-- The result. -/
  target : Place p
deriving DecidableEq

/-! ### Text -/

/-- A wire is written by its name and a literal in decimal. -/
def Operand.text : Operand → String
  | wire name => name
  | lit value => toString value

/-- The operation's sign. -/
def ArithOp.text : ArithOp → String
  | add => "+"
  | mul => "*"

/-- A gate is written as an equation, its target first. -/
def Gate.text (g : Gate) : String :=
  g.target.text ++ " = " ++ g.left.text ++ " " ++ g.op.text ++ " " ++ g.right.text

namespace Netlist

/-! ### Counts -/

/-- The number of wires, and of values in a witness. -/
def numWires (n : Netlist) : Nat := n.wires.length

/-- The number of gates, and of constraints. -/
def numConstraints (n : Netlist) : Nat := n.gates.length

/-- The number of public wires: the constant-one wire and the inputs. The number is held in 64
binary digits, so the largest number of inputs that they can hold leaves none. -/
def numPublic (n : Netlist) : Nat := (n.numInputs + 1) % UInt64.size

/-! ### Places -/

/-- The first position of a name among the wires. -/
def wireIndex (n : Netlist) (name : String) : Except Error Nat :=
  match n.wires.idxOf? name with
  | some i => .ok i
  | none => .error (.unknownSymbol name)

variable {p : Nat} [Modulus p]

/-- The place of an operand. Only a name that no wire has is refused. -/
def place (n : Netlist) : Operand → Except Error (Place p)
  | .wire name => do return ⟨← n.wireIndex name, 1⟩
  | .lit value => .ok ⟨0, Fp.ofInt value⟩

/-- The places of a gate's operands, looked up left, right, target. Refused at an unknown name, and
when there is no wire for the literals to stand on. -/
def placeGate (n : Netlist) (g : Gate) : Except Error (PlacedGate p) := do
  let left ← n.place g.left
  let right ← n.place g.right
  let target ← n.place g.target
  if n.wires.isEmpty then throw .missingEntry
  return ⟨g.op, left, right, target⟩

/-- All gates with their places, refused at the first gate that has none. -/
def placedGates (n : Netlist) : Except Error (List (PlacedGate p)) :=
  n.gates.mapM n.placeGate

end Netlist

end SuccinctProof
