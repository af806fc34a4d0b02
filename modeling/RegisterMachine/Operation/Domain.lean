/-
# Domains and kinds of results

A domain is a condition on the operands that is checked before anything is
computed; a result kind says which values an operation may answer.

Key definitions: `Domain`, `Domain.check`, `ResultKind`, `ResultKind.admits`.
-/
import RegisterMachine.Operation.Cause

namespace RegisterMachine

/-- A condition on operands. -/
inductive Domain where
  /-- None. -/
  | unconstrained
  /-- The operand is a real number above zero. -/
  | positive
  /-- The operand is a real number not below zero. -/
  | nonNegative
  /-- Every operand is an integer, or a double without fraction. -/
  | integers
  /-- The second operand, if there is one, is an integer or a double without
  fraction. -/
  | decimalPlaces
  /-- The operand is an integer not below zero. -/
  | nonNegativeInteger
  /-- The operand is a complex number. -/
  | complexOnly
  deriving DecidableEq

namespace Domain

/-- The name of the domain. -/
def name : Domain → String
  | unconstrained => "Unconstrained"
  | positive => "Positive"
  | nonNegative => "NonNegative"
  | integers => "Integers"
  | decimalPlaces => "DecimalPlaces"
  | nonNegativeInteger => "NonNegativeInteger"
  | complexOnly => "ComplexOnly"

/-- All domains. -/
def all : List Domain :=
  [unconstrained, positive, nonNegative, integers, decimalPlaces, nonNegativeInteger, complexOnly]

/-- Is the value above zero? The sign of an unbounded integer tells, however
large it is; other values are compared as doubles. -/
def isPositive : Value → Except Cause Bool
  | .big n => .ok (0 < n)
  | v => (coerced v.toBinary64).map Binary64.isPositive

/-- Is the value, as a double, not below zero? -/
def isNonNegative (v : Value) : Except Cause Bool :=
  (coerced v.toBinary64).map Binary64.isNonNegative

/-- A condition that has been decided, or the cause of refusing. -/
def require (cause : Cause) (condition : Bool) : Except Cause Unit :=
  if condition then .ok () else .error cause

/-- Checks the operands of an operation. -/
def check (domain : Domain) (operation : Operation) (operands : List Value) : Except Cause Unit :=
  match domain, operands with
  | unconstrained, _ => .ok ()
  | positive, x :: _ => isPositive x >>= require (.notPositive operation)
  | nonNegative, x :: _ => isNonNegative x >>= require (.negative operation)
  | integers, xs => require (.notIntegers operation) (xs.all Value.isIntegral)
  | decimalPlaces, _ :: places :: _ => require (.placesNotInteger operation) places.isIntegral
  | decimalPlaces, _ => .ok ()
  | nonNegativeInteger, x :: _ =>
    require (.notNatural operation) (x.exactInt?.any fun n => 0 ≤ n)
  | complexOnly, x :: _ => require (.notComplex operation) x.isComplex
  | _, [] => .error (.unknownOperation operation.name)

end Domain

/-- The values an operation may answer. -/
inductive ResultKind where
  /-- A double. -/
  | real
  /-- An integer. -/
  | integer
  /-- An integer or a double, after the operand. -/
  | number
  /-- A complex number. -/
  | complex
  deriving DecidableEq

namespace ResultKind

/-- The name of the kind. -/
def name : ResultKind → String
  | real => "Real"
  | integer => "Integer"
  | number => "Number"
  | complex => "Complex"

/-- All kinds. -/
def all : List ResultKind := [real, integer, number, complex]

/-- Is the value of this kind? -/
def admits : ResultKind → Value → Bool
  | real, .float _ => true
  | real, _ => false
  | integer, v => v.isInteger
  | number, v => !v.isComplex
  | complex, v => v.isComplex

end ResultKind

end RegisterMachine
