/-
# The catalog of operations

Each operation has a descriptor: how many operands it takes, the domain they
are checked against, and the kind of its result. To evaluate an operation is
to find its descriptor by name and number of operands, check the domain, and
compute.

Key definitions: `Descriptor`, `Operation.descriptor`, `Operation.compute`,
`Descriptor.invoke`, `lookup?`, `evaluate`.
-/
import RegisterMachine.Operation.Complex
import RegisterMachine.Operation.Domain
import RegisterMachine.Operation.Integer
import RegisterMachine.Operation.Real

namespace RegisterMachine

/-- What is known of an operation before it is computed. -/
structure Descriptor where
  operation : Operation
  arities : List Nat
  domain : Domain
  result : ResultKind
  deriving DecidableEq

namespace Operation

/-- The descriptor of an operation. -/
def descriptor (operation : Operation) : Descriptor :=
  match operation with
  | sin => ⟨operation, [1], .unconstrained, .real⟩
  | cos => ⟨operation, [1], .unconstrained, .real⟩
  | tan => ⟨operation, [1], .unconstrained, .real⟩
  | asin => ⟨operation, [1], .unconstrained, .real⟩
  | acos => ⟨operation, [1], .unconstrained, .real⟩
  | atan => ⟨operation, [1], .unconstrained, .real⟩
  | atan2 => ⟨operation, [2], .unconstrained, .real⟩
  | log => ⟨operation, [1], .positive, .real⟩
  | log10 => ⟨operation, [1], .positive, .real⟩
  | exp => ⟨operation, [1], .unconstrained, .real⟩
  | sqrt => ⟨operation, [1], .nonNegative, .real⟩
  | abs => ⟨operation, [1], .unconstrained, .number⟩
  | floor => ⟨operation, [1], .unconstrained, .integer⟩
  | ceil => ⟨operation, [1], .unconstrained, .integer⟩
  | gcd => ⟨operation, [2], .integers, .integer⟩
  | lcm => ⟨operation, [2], .integers, .integer⟩
  | round => ⟨operation, [1, 2], .decimalPlaces, .number⟩
  | factorial => ⟨operation, [1], .nonNegativeInteger, .integer⟩
  | complex => ⟨operation, [2], .unconstrained, .complex⟩
  | realPart => ⟨operation, [1], .complexOnly, .real⟩
  | imagPart => ⟨operation, [1], .complexOnly, .real⟩
  | conjugate => ⟨operation, [1], .complexOnly, .complex⟩
  | magnitude => ⟨operation, [1], .complexOnly, .real⟩
  | phase => ⟨operation, [1], .complexOnly, .real⟩

/-- Computes an operation, whatever the domain says. Operands past those it
takes are left out of account; of too few it has no result. -/
def compute : Operation → List Value → Answer
  | sin, x :: _ => realFunction .sin x
  | cos, x :: _ => realFunction .cos x
  | tan, x :: _ => realFunction .tan x
  | asin, x :: _ => realFunction .asin x
  | acos, x :: _ => realFunction .acos x
  | atan, x :: _ => realFunction .atan x
  | atan2, y :: x :: _ => directionAngle y x
  | log, x :: _ => logarithm .log logTwo x
  | log10, x :: _ => logarithm .log10 logTenOfTwo x
  | exp, x :: _ => realFunction .exp x
  | sqrt, x :: _ => realFunction .sqrt x
  | abs, x :: _ => absolute x
  | floor, x :: _ => integralPart .floor x
  | ceil, x :: _ => integralPart .ceil x
  | gcd, a :: b :: _ => greatestCommonDivisor a b
  | lcm, a :: b :: _ => leastCommonMultiple a b
  | round, xs => RegisterMachine.round xs
  | factorial, x :: _ => RegisterMachine.factorial x
  | complex, a :: b :: _ => buildComplex a b
  | realPart, x :: _ => complexFunction (fun z => .float z.re) x
  | imagPart, x :: _ => complexFunction (fun z => .float z.im) x
  | conjugate, x :: _ => complexFunction (fun z => .complex z.conj) x
  | magnitude, x :: _ => complexFunction (fun z => .float z.norm) x
  | phase, x :: _ => complexFunction (fun z => .float z.arg) x
  | operation, _ => .error (.unknownOperation operation.name)

end Operation

namespace Descriptor

/-- Does the operation take this many operands? -/
def accepts (d : Descriptor) (count : Nat) : Bool := d.arities.contains count

/-- Checks the number of operands and the domain, and computes. -/
def invoke (d : Descriptor) (operands : List Value) : Answer :=
  if d.accepts operands.length then
    d.domain.check d.operation operands >>= fun _ => d.operation.compute operands
  else .error (.unknownOperation d.operation.name)

/-- The descriptor as a line of text. -/
def text (d : Descriptor) : String :=
  "OpDescriptor \x7b op: " ++ d.operation.title ++
    ", arities: [" ++ ", ".intercalate (d.arities.map toString) ++
    "], domain: " ++ d.domain.name ++ ", result: " ++ d.result.name ++ ", .. \x7d"

end Descriptor

/-- The descriptors of all operations, in order. -/
def catalog : List Descriptor := Operation.all.map Operation.descriptor

/-- The descriptor of the operation with a given name, in any case, if it takes
this many operands. -/
def lookup? (name : String) (count : Nat) : Option Descriptor :=
  (Operation.ofName? name).bind fun operation =>
    if operation.descriptor.accepts count then some operation.descriptor else none

/-- Evaluates an operation, given by name, on operands; failures are reported on
the given line. -/
def evaluate (name : String) (operands : List Value) (line : Nat) : Except Report Value :=
  match lookup? name operands.length with
  | none => .error ((Cause.unknownOperation (upperCase name)).failure.atLine line)
  | some d =>
    (d.invoke operands).mapError fun cause =>
      (cause.failure.inOperation d.operation.name).atLine line

end RegisterMachine
