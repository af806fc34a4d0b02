/-
# Complex functions

A complex number is built as `a + b * i`, where both may be complex
themselves. Its parts, magnitude and phase are asked of complex values only.

Key definitions: `buildComplex`, `complexFunction`.
-/
import RegisterMachine.Operation.Cause

namespace RegisterMachine

/-- The number `a + b * i`. -/
def buildComplex (a b : Value) : Answer := do
  let a ← coerced a.toComplex
  let b ← coerced b.toComplex
  .ok (.complex ⟨a.re.sub b.im, a.im.add b.re⟩)

/-- A function of a complex operand. -/
def complexFunction (f : ComplexNumber → Value) (x : Value) : Answer :=
  match x.complex? with
  | some z => .ok (f z)
  | none => .error (.complexExpected x.typeName)

end RegisterMachine
