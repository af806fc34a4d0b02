/-
# Doubles and integers

The floor, the ceiling and the nearest integer of a double are doubles again: the
magnitude is taken to a whole number, which always is the value of a double,
and the sign stays, also where a zero is left. Read as an integer, a double
gives its whole part, of any size. `toInt?` is the value of a finite double
without a fraction.

Key definitions: `Binary64.toWhole`, `Binary64.floor`, `Binary64.ceil`,
`Binary64.roundEven`, `Binary64.truncate?`, `Binary64.isIntegral`,
`Binary64.toInt?`.
Key theorems: `Binary64.toInt?_isSome`.
-/
import RegisterMachine.Binary64.Nearest

namespace RegisterMachine.Binary64

/-- A double with its magnitude taken to a whole number, which `whole` finds from the
sign and the number of quanta. Infinities and NaN stay as they are. -/
def toWhole (whole : Bool → Nat → Nat) : Binary64 → Binary64
  | .finite negative m => nearest negative (whole negative m.quanta * unit) 1
  | x => x

/-- The whole units in a number of quanta, going down; for a negative number the
magnitude grows. -/
def wholeDown (negative : Bool) (n : Nat) : Nat :=
  if negative then (n + unit - 1) / unit else n / unit

/-- The whole units in a number of quanta, going up. -/
def wholeUp (negative : Bool) (n : Nat) : Nat := wholeDown (!negative) n

/-- The whole units nearest to a number of quanta, an even number of two. -/
def wholeNearest (_negative : Bool) (n : Nat) : Nat := divNearest n unit

/-- The greatest whole number that is not above the number. -/
def floor : Binary64 → Binary64 := toWhole wholeDown

/-- The least whole number that is not below the number. -/
def ceil : Binary64 → Binary64 := toWhole wholeUp

/-- The whole number nearest to the number, the even one of two that are equally near. -/
def roundEven : Binary64 → Binary64 := toWhole wholeNearest

/-- The whole part of a finite number. -/
def truncate? : Binary64 → Option Int
  | .finite negative m => some (signed negative (m.quanta / unit))
  | _ => none

/-- Is the number finite and without a fraction? -/
def isIntegral : Binary64 → Bool
  | .finite _ m => m.quanta % unit == 0
  | _ => false

/-- The value of a finite number without a fraction. -/
def toInt? : Binary64 → Option Int
  | .finite negative m =>
    if m.quanta % unit = 0 then some (signed negative (m.quanta / unit)) else none
  | _ => none

theorem toInt?_isSome (x : Binary64) : x.toInt?.isSome = x.isIntegral := by
  cases x with
  | nan => rfl
  | infinite s => rfl
  | finite s m => by_cases h : m.quanta % unit = 0 <;> simp [toInt?, isIntegral, h]

end RegisterMachine.Binary64
