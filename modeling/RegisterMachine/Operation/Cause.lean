/-
# Why an operation fails

The causes for which an operation refuses its operands or has no result. Each
has a kind and a wording; the line is not known here.

Key definitions: `Cause`, `Cause.kind`, `Cause.message`, `Cause.failure`.
-/
import RegisterMachine.Failure
import RegisterMachine.Operation.Name
import RegisterMachine.Value.Coercion

namespace RegisterMachine

/-- Why an operation fails. -/
inductive Cause where
  /-- No operation has this name and takes this many operands. -/
  | unknownOperation (name : String)
  /-- Rounding takes one operand or two. -/
  | roundingOperands (count : Nat)
  /-- A logarithm of zero, of a negative number or of NaN. -/
  | notPositive (operation : Operation)
  /-- A square root of a negative number or of NaN. -/
  | negative (operation : Operation)
  /-- A factorial of something that is not zero or a positive integer. -/
  | notNatural (operation : Operation)
  /-- Some operand is not an integer. -/
  | notIntegers (operation : Operation)
  /-- The number of decimal places is not an integer, or has none to count. -/
  | placesNotInteger (operation : Operation)
  /-- The operand is not complex. -/
  | notComplex (operation : Operation)
  /-- A part is asked of a value that is not complex. -/
  | complexExpected (typeName : String)
  /-- The least common multiple is a quotient, and its divisor is zero. -/
  | zeroDivisor
  /-- An operand is not a number of the kind that is needed. -/
  | coercion (failure : CoercionFailure)
  /-- The function has no value at the operand. -/
  | outsideDomain
  /-- The value of the function is past the greatest double. -/
  | outsideRange
  /-- NaN has no integer next to it. -/
  | nanToInteger
  /-- An infinity has no integer next to it. -/
  | infinityToInteger
  /-- The double is not an integer. -/
  | notConvertible (x : Binary64)
  /-- The factorial of an integer past the words is not attempted. -/
  | factorialTooLarge
  /-- Complex numbers are not rounded to an integer. -/
  | complexRounding
  deriving DecidableEq

namespace Cause

/-- The kind of failure. -/
def kind : Cause → ErrorKind
  | unknownOperation _ => .syntaxError
  | roundingOperands _ => .syntaxError
  | notPositive _ => .valueError
  | negative _ => .valueError
  | notNatural _ => .valueError
  | notIntegers _ => .typeError
  | placesNotInteger _ => .typeError
  | notComplex _ => .typeError
  | complexExpected _ => .typeError
  | zeroDivisor => .zeroDivisionError
  | coercion _ => .runtimeError
  | outsideDomain => .runtimeError
  | outsideRange => .runtimeError
  | nanToInteger => .runtimeError
  | infinityToInteger => .runtimeError
  | notConvertible _ => .runtimeError
  | factorialTooLarge => .runtimeError
  | complexRounding => .runtimeError

/-- The wording of the failure. -/
def message : Cause → String
  | unknownOperation name =>
    "Unknown AMATH operation '" ++ name ++ "' or incorrect number/types of arguments."
  | roundingOperands count => "ROUND takes 1 or 2 arguments, got " ++ toString count
  | notPositive operation => operation.name ++ " of non-positive number."
  | negative operation => operation.name ++ " of negative number."
  | notNatural operation => operation.name ++ " requires a non-negative integer."
  | notIntegers operation => operation.name ++ " requires integer arguments."
  | placesNotInteger operation => operation.name ++ " decimal places must be an integer."
  | notComplex operation => operation.name ++ " requires a complex number."
  | complexExpected typeName => "expected a complex number, got " ++ typeName
  | zeroDivisor => "LCM calculation error due to zero argument."
  | coercion failure => failure.message
  | outsideDomain => "math domain error"
  | outsideRange => "math range error"
  | nanToInteger => "cannot convert float NaN to integer"
  | infinityToInteger => "cannot convert float infinity to integer"
  | notConvertible x => "cannot convert " ++ String.ofList (x.textWith []) ++ " to integer"
  | factorialTooLarge => "factorial() argument should not exceed 9223372036854775807"
  | complexRounding => "type complex doesn't define rounding"

/-- The failure of a cause. -/
def failure (cause : Cause) : Failure := ⟨cause.kind, cause.message⟩

end Cause

/-- What an operation answers. -/
abbrev Answer := Except Cause Value

/-- A coercion as part of an operation. -/
def coerced {α : Type} (r : Except CoercionFailure α) : Except Cause α := r.mapError .coercion

end RegisterMachine
