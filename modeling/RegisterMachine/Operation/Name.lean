/-
# The operations

The arithmetic instruction knows twenty-four operations. Their names are upper
case and are read in any case.

Key definitions: `Operation`, `Operation.all`, `Operation.name`,
`Operation.ofName?`.
Key theorems: `Operation.mem_all`, `Operation.ofName?_name`.
-/
import RegisterMachine.Text.Case

namespace RegisterMachine

/-- The operations of the arithmetic instruction. -/
inductive Operation where
  | sin
  | cos
  | tan
  | asin
  | acos
  | atan
  | atan2
  | log
  | log10
  | exp
  | sqrt
  | abs
  | floor
  | ceil
  | gcd
  | lcm
  | round
  | factorial
  | complex
  | realPart
  | imagPart
  | conjugate
  | magnitude
  | phase
  deriving DecidableEq

namespace Operation

/-- All operations, in the order of the table. -/
def all : List Operation :=
  [.sin, .cos, .tan, .asin, .acos, .atan, .atan2, .log, .log10, .exp, .sqrt, .abs, .floor, .ceil,
    .gcd, .lcm, .round, .factorial, .complex, .realPart, .imagPart, .conjugate, .magnitude, .phase]

/-- The title of the operation, its name with capital letters at the starts of
words. -/
def title : Operation → String
  | .sin => "Sin"
  | .cos => "Cos"
  | .tan => "Tan"
  | .asin => "Asin"
  | .acos => "Acos"
  | .atan => "Atan"
  | .atan2 => "Atan2"
  | .log => "Log"
  | .log10 => "Log10"
  | .exp => "Exp"
  | .sqrt => "Sqrt"
  | .abs => "Abs"
  | .floor => "Floor"
  | .ceil => "Ceil"
  | .gcd => "Gcd"
  | .lcm => "Lcm"
  | .round => "Round"
  | .factorial => "Factorial"
  | .complex => "Complex"
  | .realPart => "RealPart"
  | .imagPart => "ImagPart"
  | .conjugate => "Conjugate"
  | .magnitude => "Magnitude"
  | .phase => "Phase"

/-- The name of the operation in an instruction. -/
def name : Operation → String
  | .sin => "SIN"
  | .cos => "COS"
  | .tan => "TAN"
  | .asin => "ASIN"
  | .acos => "ACOS"
  | .atan => "ATAN"
  | .atan2 => "ATAN2"
  | .log => "LOG"
  | .log10 => "LOG10"
  | .exp => "EXP"
  | .sqrt => "SQRT"
  | .abs => "ABS"
  | .floor => "FLOOR"
  | .ceil => "CEIL"
  | .gcd => "GCD"
  | .lcm => "LCM"
  | .round => "ROUND"
  | .factorial => "FACTORIAL"
  | .complex => "COMPLEX"
  | .realPart => "REALPART"
  | .imagPart => "IMAGPART"
  | .conjugate => "CONJUGATE"
  | .magnitude => "MAGNITUDE"
  | .phase => "PHASE"

/-- What the operation computes, in words. -/
def description : Operation → String
  | .sin => "Sine of an angle in radians"
  | .cos => "Cosine of an angle in radians"
  | .tan => "Tangent of an angle in radians"
  | .asin => "Arc sine, in radians"
  | .acos => "Arc cosine, in radians"
  | .atan => "Arc tangent, in radians"
  | .atan2 => "Two-argument arc tangent of (y, x)"
  | .log => "Natural logarithm of a positive number"
  | .log10 => "Base-10 logarithm of a positive number"
  | .exp => "e raised to the argument"
  | .sqrt => "Principal square root of a non-negative number"
  | .abs => "Absolute value (magnitude for complex numbers)"
  | .floor => "Largest integer not greater than the argument"
  | .ceil => "Smallest integer not less than the argument"
  | .gcd => "Greatest common divisor of two integers"
  | .lcm => "Least common multiple of two integers"
  | .round => "Round half-to-even, optionally to N decimal places"
  | .factorial => "Factorial of a non-negative integer"
  | .complex => "Build a complex number from real and imaginary parts"
  | .realPart => "Real part of a complex number"
  | .imagPart => "Imaginary part of a complex number"
  | .conjugate => "Complex conjugate"
  | .magnitude => "Magnitude of a complex number"
  | .phase => "Phase angle of a complex number, atan2(imag, real)"

/-- The operation with a given name, in any case. -/
def ofName? (name : String) : Option Operation :=
  all.find? fun operation => operation.name = upperCase name

theorem mem_all (operation : Operation) : operation ∈ all := by cases operation <;> decide

theorem ofName?_name (operation : Operation) : ofName? operation.name = some operation := by
  cases operation <;> decide +kernel

theorem ofName?_upperCase (name : String) : ofName? (upperCase name) = ofName? name := by
  simp [ofName?]

end Operation

end RegisterMachine
