/-
# Integer functions and rounding

These functions answer integers of any size, encoded as words where they fit.
Floor, ceiling and rounding to an integer leave an integer operand as it is,
also in its encoding.

Key definitions: `absolute`, `wholeInteger`, `integralPart`, `euclid`,
`greatestCommonDivisor`, `leastCommonMultiple`, `factorial`, `roundToInteger`,
`roundToPlaces`.
-/
import RegisterMachine.Decimal.Places
import RegisterMachine.Operation.Cause

namespace RegisterMachine

/-- The absolute value, which is real. -/
def absolute : Value → Answer
  | .small n => .ok (.ofInt n.val.natAbs)
  | .big n => .ok (.ofInt n.natAbs)
  | .float x => .ok (.float x.abs)
  | .complex z => .ok (.float z.norm)

/-- The integer that a double without fraction is. Those from the least word up to the
double of the greatest one, which itself is past the words, are read as words. -/
def wholeInteger (x : Binary64) : Answer :=
  if x.isNaN then .error .nanToInteger
  else if x.isInfinite then .error .infinityToInteger
  else if (Binary64.ofInt Word.least.val).le x ∧ x.lt (.ofInt Word.greatest.val) then
    .ok (.small (.ofBinary64 x))
  else
    match x.truncate? with
    | some n => .ok (.ofInt n)
    | none => .error (.notConvertible x)

/-- Floor or ceiling, as `f` says. -/
def integralPart (f : Binary64 → Binary64) : Value → Answer
  | .small n => .ok (.small n)
  | .big n => .ok (.big n)
  | .float x => wholeInteger (f x)
  | .complex z => .error (.coercion (.notReal (Value.complex z).typeName))

/-- Euclid's algorithm: as long as the second number is not zero, it is the next first
one and the remainder of the division by it is the next second one. -/
def euclid (a b : Int) : Int :=
  if b = 0 then a else euclid b (a.tmod b)
termination_by b.natAbs
decreasing_by
  rename_i hb
  rw [Int.natAbs_tmod]
  exact Nat.mod_lt _ (Int.natAbs_pos.2 hb)

/-- Euclid's algorithm ends with the greatest common divisor, up to its sign. -/
theorem natAbs_euclid (a b : Int) : (euclid a b).natAbs = a.gcd b := by
  induction a, b using euclid.induct with
  | case1 a =>
    rw [euclid, if_pos rfl, Int.gcd_zero_right]
  | case2 a b hb ih =>
    rw [euclid, if_neg hb, ih, Int.gcd, Int.gcd, Int.natAbs_tmod, Nat.gcd_comm, ← Nat.gcd_rec,
      Nat.gcd_comm]

/-- Of numbers that are not negative no remainder is negative. -/
theorem euclid_nonneg {a b : Int} (ha : 0 ≤ a) (hb : 0 ≤ b) : 0 ≤ euclid a b := by
  induction a, b using euclid.induct with
  | case1 a =>
    rw [euclid, if_pos rfl]
    exact ha
  | case2 a b hne ih =>
    rw [euclid, if_neg hne]
    exact ih hb (Int.tmod_nonneg b ha)

theorem euclid_natAbs (a b : Int) : euclid a.natAbs b.natAbs = a.gcd b := by
  have hnonneg := euclid_nonneg (Int.natCast_nonneg a.natAbs) (Int.natCast_nonneg b.natAbs)
  rw [← Int.natAbs_of_nonneg hnonneg, natAbs_euclid]
  rfl

/-- The greatest common divisor, which is not negative. -/
def greatestCommonDivisor (a b : Value) : Answer := do
  let a ← coerced a.toInteger
  let b ← coerced b.toInteger
  .ok (.ofInt (euclid a.natAbs b.natAbs))

/-- The least common multiple, which is not negative; with zero it is zero. -/
def leastCommonMultiple (a b : Value) : Answer := do
  let a ← coerced a.toInteger
  let b ← coerced b.toInteger
  if a = 0 ∨ b = 0 then .ok (.ofInt 0)
  else if euclid a.natAbs b.natAbs = 0 then .error .zeroDivisor
  else .ok (.ofInt (((a * b).natAbs : Int).tdiv (euclid a.natAbs b.natAbs)))

/-- The product of the integers from two to `n`. -/
def product (n : Nat) : Nat := (List.range' 2 (n - 1)).foldl (· * ·) 1

/-- The factorial of an integer that fits a word. -/
def factorial (x : Value) : Answer :=
  match x.exactInt? with
  | none => .error (.notNatural .factorial)
  | some n =>
    match Word.ofInt? n with
    | none => .error .factorialTooLarge
    | some w => .ok (.ofInt (product w.val.toNat))

/-- The nearest integer, the even one of two that are equally near. -/
def roundToInteger : Value → Answer
  | .small n => .ok (.small n)
  | .big n => .ok (.big n)
  | .float x => wholeInteger x.roundEven
  | .complex _ => .error .complexRounding

/-- The number rounded to decimal places, of which no more are counted than a word
can tell. -/
def roundToPlaces (x places : Value) : Answer :=
  match places.toInteger with
  | .error _ => .error (.placesNotInteger .round)
  | .ok places =>
    let places := (Word.saturate places).val
    match x with
    | .small n => .ok (.ofInt (roundInteger n.val places))
    | .big n => .ok (.ofInt (roundInteger n places))
    | .float x => .ok (.float (x.roundPlaces places))
    | .complex _ => .error (.placesNotInteger .round)

/-- Rounding of one operand or two. -/
def round : List Value → Answer
  | [x] => roundToInteger x
  | [x, places] => roundToPlaces x places
  | operands => .error (.roundingOperands operands.length)

end RegisterMachine
