/-!
# Reasons for refusal

Every operation of the library that can fail says why with a value of `Error`. The reasons are
causes, not texts: `Error.message` is the one place where a cause is put into words, and
`CircuitFault.message` words the causes that are about the shape of a circuit.

A proof that does not verify is not a failure. Verification answers with a Boolean, and only a key
that does not fit the number of public inputs is refused.
-/

namespace SuccinctProof

/-- What can be wrong with a circuit, with its constraints, or with the program lifted from them. -/
inductive CircuitFault where
  /-- A name that is empty or starts with the mark reserved for built-in wires. -/
  | invalidName (name : String)
  /-- A name that already belongs to a wire is given a value again. -/
  | reassigned (name : String)
  /-- The base of a power is neither a wire nor a literal. -/
  | compoundBase
  /-- A power with an exponent below one. -/
  | exponentNotPositive (exponent : Int)
  /-- A statement follows the return statement. -/
  | afterReturn
  /-- No statement returns. -/
  | missingReturn
  /-- No gate, and no input, ever gives the wire a value. -/
  | unassigned (name : String)
  /-- There is no constraint to interpolate through. -/
  | noConstraints
  /-- The public wires are none at all, or more than there are wires. -/
  | publicCount (found wires : Nat)
  /-- A quadratic program whose parts do not fit together. -/
  | malformedProgram
deriving DecidableEq

namespace CircuitFault

/-- The fault in words. -/
def message : CircuitFault → String
  | invalidName name => "`" ++ name ++ "` is not a valid wire name"
  | reassigned name => "wire `" ++ name ++ "` is assigned more than once"
  | compoundBase => "power base must be a wire or a literal"
  | exponentNotPositive n => "exponent " ++ toString n ++ " is not a positive integer"
  | afterReturn => "statement after return"
  | missingReturn => "missing return statement"
  | unassigned name => "wire `" ++ name ++ "` is never assigned a value"
  | noConstraints => "circuit has no constraints"
  | publicCount found wires =>
    toString found ++ " public wires out of " ++ toString wires
  | malformedProgram => "malformed QAP"

end CircuitFault

/-- Why an operation refused its arguments. -/
inductive Error where
  /-- Zero has no inverse. -/
  | divisionByZero
  /-- Division of polynomials left a remainder where none was allowed. -/
  | notDivisible
  /-- No wire has this name. -/
  | unknownSymbol (name : String)
  /-- The circuit, or what was derived from it, is not usable. -/
  | invalidCircuit (fault : CircuitFault)
  /-- An assignment does not have one value per expected wire. -/
  | witnessLength (expected found : Nat)
  /-- A polynomial has more coefficients than the reference string has powers. -/
  | degreeTooLarge
  /-- A verifying key does not fit the number of public inputs. -/
  | malformedKey
  /-- A variable was asked for its value, and no assignment was supplied. -/
  | assignmentMissing
  /-- A list that was put together by hand ends before an entry that is needed. -/
  | missingEntry
deriving DecidableEq

namespace Error

/-- The refusal in words. -/
def message : Error → String
  | divisionByZero => "division by zero"
  | notDivisible => "polynomial is not divisible by the divisor"
  | unknownSymbol name => "unknown symbol `" ++ name ++ "`"
  | invalidCircuit fault => "invalid circuit: " ++ fault.message
  | witnessLength expected found =>
    "invalid witness length, expected " ++ toString expected ++ " but got " ++ toString found
  | degreeTooLarge => "polynomial degree too large for the reference string"
  | malformedKey => "malformed verifying key"
  | assignmentMissing =>
    "constraint synthesis failed: an assignment for a variable could not be computed"
  | missingEntry => "a list is too short"

end Error

end SuccinctProof
