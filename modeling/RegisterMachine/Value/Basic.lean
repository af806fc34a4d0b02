/-
# Values

A value is an integer, a double, or a complex number with double parts. An
integer has two encodings: a `Word`, for the integers of sixty-four bits, and
an integer without bounds. Arithmetic makes the word whenever the integer fits
(`Value.ofInt`), but an unbounded integer that would fit is a value too, and
the host may bring one in.

Key definitions: `Word`, `Word.ofBinary64`, `ComplexNumber`, `Value`,
`Value.ofInt`, `Value.exactInt?`.
Key theorems: `Value.exactInt?_ofInt`.
-/
import RegisterMachine.Binary64.Arithmetic
import RegisterMachine.Binary64.Integral
import RegisterMachine.Elementary.Trigonometric

namespace RegisterMachine

/-- An integer of sixty-four bits. -/
structure Word where
  val : Int
  le_val : -2 ^ 63 ≤ val := by decide
  val_lt : val < 2 ^ 63 := by decide
  deriving DecidableEq

/-- The word of an integer that fits. -/
def Word.ofInt? (n : Int) : Option Word :=
  if h : -2 ^ 63 ≤ n ∧ n < 2 ^ 63 then some ⟨n, h.1, h.2⟩ else none

/-- The word nearest to an integer: of one that does not fit, the least or the
greatest word. -/
def Word.saturate (n : Int) : Word := ⟨max (-2 ^ 63) (min (2 ^ 63 - 1) n), by omega, by omega⟩

/-- The least word. -/
def Word.least : Word := ⟨-2 ^ 63, by decide, by decide⟩

/-- The greatest word. -/
def Word.greatest : Word := ⟨2 ^ 63 - 1, by decide, by decide⟩

/-- The word nearest to the whole part of a double; NaN gives zero. -/
def Word.ofBinary64 : Binary64 → Word
  | .nan => .saturate 0
  | .infinite negative => if negative then .least else .greatest
  | .finite negative m => .saturate (signed negative (m.quanta / Binary64.unit))

theorem Word.ofInt?_val (w : Word) : Word.ofInt? w.val = some w := by
  unfold Word.ofInt?
  rw [dif_pos ⟨w.le_val, w.val_lt⟩]

/-- A complex number with double parts. -/
structure ComplexNumber where
  re : Binary64
  im : Binary64
  deriving DecidableEq

namespace ComplexNumber

/-- The conjugate: the imaginary part changes its sign. -/
def conj (z : ComplexNumber) : ComplexNumber := ⟨z.re, z.im.neg⟩

/-- The magnitude. -/
def norm (z : ComplexNumber) : Binary64 := z.re.hypot z.im

/-- The phase angle. -/
def arg (z : ComplexNumber) : Binary64 := z.im.atan2 z.re

/-- Numeric equality of both parts. -/
def numEq (z w : ComplexNumber) : Bool := z.re.numEq w.re && z.im.numEq w.im

end ComplexNumber

/-- What registers, stacks and immutables hold. -/
inductive Value where
  | small (n : Word)
  | big (n : Int)
  | float (x : Binary64)
  | complex (z : ComplexNumber)
  deriving DecidableEq

namespace Value

/-- An integer as a value: a word if it fits. -/
def ofInt (n : Int) : Value :=
  match Word.ofInt? n with
  | some w => .small w
  | none => .big n

/-- The name of the kind of value. -/
def typeName : Value → String
  | .small _ => "int"
  | .big _ => "int"
  | .float _ => "float"
  | .complex _ => "complex"

/-- Is the value an integer, in either encoding? -/
def isInteger : Value → Bool
  | .small _ => true
  | .big _ => true
  | _ => false

/-- Is the value a complex number? -/
def isComplex : Value → Bool
  | .complex _ => true
  | _ => false

/-- The complex number that the value is. -/
def complex? : Value → Option ComplexNumber
  | .complex z => some z
  | _ => none

/-- The integer that the value is; a double is none, even one without fraction. -/
def exactInt? : Value → Option Int
  | .small n => some n.val
  | .big n => some n
  | _ => none

/-- Both encodings made by `ofInt` are of the integer itself. -/
@[simp]
theorem exactInt?_ofInt (n : Int) : (ofInt n).exactInt? = some n := by
  unfold ofInt Word.ofInt?
  by_cases h : -2 ^ 63 ≤ n ∧ n < 2 ^ 63
  · rw [dif_pos h]; rfl
  · rw [dif_neg h]; rfl

theorem ofInt_injective {n m : Int} (h : ofInt n = ofInt m) : n = m := by
  have hexact := congrArg exactInt? h
  rw [exactInt?_ofInt, exactInt?_ofInt] at hexact
  exact Option.some.inj hexact

@[simp]
theorem ofInt_val (w : Word) : ofInt w.val = .small w := by rw [ofInt, Word.ofInt?_val]

@[simp]
theorem isInteger_ofInt (n : Int) : (ofInt n).isInteger = true := by
  unfold ofInt; split <;> rfl

/-- Equality of values as the machine sees it. Integers are equal across their
encodings; a word is compared with a double as a double, an unbounded integer
is equal to no double; a complex number is equal to complex numbers only. -/
def numEq : Value → Value → Bool
  | .small a, .small b => a == b
  | .big a, .big b => a == b
  | .small a, .big b => a.val == b
  | .big a, .small b => a == b.val
  | .float x, .float y => x.numEq y
  | .small a, .float y => (Binary64.ofInt a.val).numEq y
  | .float x, .small b => (Binary64.ofInt b.val).numEq x
  | .complex z, .complex w => z.numEq w
  | _, _ => false

end Value

end RegisterMachine
