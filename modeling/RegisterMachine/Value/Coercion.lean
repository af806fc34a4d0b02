/-
# Values as numbers of one kind

Operations need their operands as doubles, as complex numbers or as integers.
An integer is taken to the nearest double and refused if that would be
infinite; a double is taken to an integer only if it has no fraction; a
complex number is neither. What is no integer is refused with its text, in which
a NaN has a plus sign.

Key definitions: `CoercionFailure`, `Value.toBinary64`, `Value.toComplex`,
`Value.toInteger`.
-/
import RegisterMachine.Value.Text

namespace RegisterMachine

/-- Why a value is not a number of the kind that is needed. -/
inductive CoercionFailure where
  | notReal (typeName : String)
  | tooLarge
  | notInteger (text : String)
  deriving DecidableEq

/-- The wording of a coercion failure. -/
def CoercionFailure.message : CoercionFailure → String
  | .notReal typeName => "must be real number, not " ++ typeName
  | .tooLarge => "int too large to convert to float"
  | .notInteger text => "'" ++ text ++ "' cannot be interpreted as an integer"

namespace Value

/-- The value as a double. -/
def toBinary64 : Value → Except CoercionFailure Binary64
  | .small n => .ok (.ofInt n.val)
  | .big n => if (Binary64.ofInt n).isFinite then .ok (.ofInt n) else .error .tooLarge
  | .float x => .ok x
  | .complex z => .error (.notReal (Value.complex z).typeName)

/-- The value as a complex number; a real one gets the imaginary part zero. -/
def toComplex : Value → Except CoercionFailure ComplexNumber
  | .complex z => .ok z
  | v => v.toBinary64.map fun x => ⟨x, .zero⟩

/-- The value as an integer. -/
def toInteger (v : Value) : Except CoercionFailure Int :=
  match v with
  | .small n => .ok n.val
  | .big n => .ok n
  | .float x =>
    match x.toInt? with
    | some n => .ok n
    | none => .error (.notInteger v.text)
  | .complex _ => .error (.notInteger v.text)

/-- Can the value be taken to an integer? -/
def isIntegral (v : Value) : Bool := v.toInteger.toBool

end Value

end RegisterMachine
