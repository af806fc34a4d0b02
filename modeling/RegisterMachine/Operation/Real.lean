/-
# Real functions

A real function takes its operands as doubles. A result that is not a number,
of operands that are, means that the function has no value there; an infinite
result of finite operands means that its value is out of range.

The logarithm of an unbounded integer is taken of its leading fifty-three bits
and the places cut off are added as so many logarithms of two, so that it
exists also for integers past the doubles.

Key definitions: `checked`, `realFunction`, `leadingBits`, `logarithm`.
-/
import RegisterMachine.Elementary.Exponential
import RegisterMachine.Operation.Cause

namespace RegisterMachine

/-- The result of a real function, unless it tells that there is none. -/
def checked (finite notANumber : Bool) (result : Binary64) : Answer :=
  if result.isNaN ∧ !notANumber then .error .outsideDomain
  else if result.isInfinite ∧ finite then .error .outsideRange
  else .ok (.float result)

/-- A real function of one operand. -/
def realFunction (f : Binary64 → Binary64) (x : Value) : Answer := do
  let x ← coerced x.toBinary64
  checked x.isFinite x.isNaN (f x)

/-- The angle of the direction `(x, y)`. -/
def directionAngle (y x : Value) : Answer := do
  let y ← coerced y.toBinary64
  let x ← coerced x.toBinary64
  checked (y.isFinite && x.isFinite) (y.isNaN || x.isNaN) (y.atan2 x)

/-- How many places are cut off an integer to leave fifty-three bits. -/
def cutPlaces (n : Int) : Nat := n.natAbs.log2 - 52

/-- The leading fifty-three bits of an integer, or all it has. -/
def leadingBits (n : Int) : Int := n / (2 ^ cutPlaces n : Nat)

/-- A logarithm, given the logarithm of two. -/
def logarithm (f : Binary64 → Binary64) (logTwo : Binary64) : Value → Answer
  | .big n =>
    .ok (.float ((f (.ofInt (leadingBits n))).add ((Binary64.ofInt (cutPlaces n)).mul logTwo)))
  | v => realFunction f v

/-- The double nearest to the natural logarithm of two. -/
def logTwo : Binary64 := .ofBits 0x3fe62e42fefa39ef

/-- The double nearest to the decimal logarithm of two. -/
def logTenOfTwo : Binary64 := .ofBits 0x3fd34413509f79ff

end RegisterMachine
