import SuccinctProof.Fp

/-!
# Arithmetic circuits as small programs

A circuit names its inputs and then runs through statements. Each statement but the last gives a
wire the value of an expression; the last returns one. An expression is built from wires and
integer literals by sums, products and powers with a literal exponent.

This is the form in which a user writes a circuit, and nothing is checked in it: names may repeat,
exponents may be negative, the return statement may be missing. `Netlist.ofCircuit` decides which
circuits are accepted, and `Expr.eval` says what an expression is worth.
-/

namespace SuccinctProof

/-- The two ways of combining values. -/
inductive ArithOp where
  /-- The sum. -/
  | add
  /-- The product. -/
  | mul
deriving DecidableEq

/-- An operation on residues. -/
def ArithOp.apply {p : Nat} [Modulus p] : ArithOp → Fp p → Fp p → Fp p
  | add, a, b => a + b
  | mul, a, b => a * b

/-- An expression over named wires. -/
inductive Expr where
  /-- The value of a wire. -/
  | var (name : String)
  /-- An integer, to be read as a residue. -/
  | lit (value : Int)
  /-- A sum or a product. -/
  | binary (op : ArithOp) (left right : Expr)
  /-- A power with a literal exponent. -/
  | pow (base : Expr) (exponent : Int)
deriving DecidableEq

/-- A step of a circuit. -/
inductive Statement where
  /-- Gives the wire `target` the value of an expression. -/
  | assign (target : String) (value : Expr)
  /-- Makes the value of an expression the output. -/
  | ret (value : Expr)
deriving DecidableEq

/-- A program over named wires. -/
structure Circuit where
  /-- The input wires, in the order in which their values are supplied. -/
  inputs : List String
  /-- The statements, in order. -/
  body : List Statement
deriving DecidableEq

/-- The value of an expression when `value?` gives the values of the wires: undefined as soon as a
wire without a value is read. -/
def Expr.eval {p : Nat} [Modulus p] (value? : String → Option (Fp p)) : Expr → Option (Fp p)
  | var name => value? name
  | lit n => some (Fp.ofInt n)
  | binary op left right => do return op.apply (← left.eval value?) (← right.eval value?)
  | pow base n => do return (← base.eval value?) ^ n.toNat

end SuccinctProof
