/-
# Exponential and logarithms

The exponential splits off a multiple of the logarithm of two and sums its
series on what is left; the logarithm splits off a power of two and sums the
series of the inverse hyperbolic tangent; the decimal logarithm is a quotient
of two logarithms. All three are rounded once, from intervals.

Past `overflowsFrom` the exponential is above every double, and below
`vanishesTo` it is less than half the quantum; between them it is finite and
positive before rounding.

Key definitions: `Binary64.exp`, `Binary64.log`, `Binary64.log10`.
Key theorems: `Binary64.isFinite_exp_iff`, `Binary64.isFinite_log`.
-/
import RegisterMachine.Elementary.Settle

namespace RegisterMachine

namespace Interval

/-- The natural logarithm of two, `2 * artanh (1 / 3)`. -/
def logTwo (p : Nat) : Interval p := (oddPowers false (ofQuotient p 1 3)).scale 2

/-- The natural logarithm of ten, which is `8 * (5 / 4)`. -/
def logTen (p : Nat) : Interval p :=
  ((logTwo p).scale 3).add ((oddPowers false (ofQuotient p 1 9)).scale 2)

/-- The exponential, by its series, of numbers of absolute value at most a half. -/
def expSmall {p : Nat} (r : Interval p) : Interval p :=
  series (fun _ t => t) (fun k t => (t.mul r).divNat (k + 1)) p 0 (ofInt p 1)

/-- The exponential of `n / d`. -/
def exp? (n : Int) (d : Nat) (p : Nat) : Option (Interval p) :=
  let x := ofQuotient p n d
  let logTwo := logTwo p
  if logTwo.lo ≤ 0 then none
  else
    let k := x.lo / logTwo.lo
    let r := x.sub (logTwo.scale k)
    if r.radius ≤ one p then some ((expSmall (r.divNat 2)).mul (expSmall (r.divNat 2)) |>.shift k)
    else none

/-- The natural logarithm of `n / 2 ^ e`, for positive `n`: the power of two is
chosen so that the other factor lies between three quarters and three halves. -/
def log (n e : Nat) (p : Nat) : Interval p :=
  let top := n.log2
  let top := if 3 * 2 ^ top ≤ 2 * n then top + 1 else top
  let t := ofQuotient p ((n : Int) - (2 ^ top : Nat)) (n + 2 ^ top)
  ((logTwo p).scale ((top : Int) - e)).add ((oddPowers false t).scale 2)

/-- The decimal logarithm of `n / 2 ^ e`, for positive `n`. -/
def log10? (n e : Nat) (p : Nat) : Option (Interval p) := (log n e p).div? (logTen p)

end Interval

namespace Binary64

/-- The ordinal of the greatest double whose exponential is in range. -/
def overflowsFrom : Nat := 0x40862e42fefa39ef

/-- The ordinal of the greatest number whose negative has an exponential of half
a quantum or more. -/
def vanishesTo : Nat := 0x40874910d52d3051

/-- The exponential function. -/
def exp : Binary64 → Binary64
  | .nan => .nan
  | .infinite negative => if negative then zero else .infinite false
  | .finite negative m =>
    if !negative ∧ overflowsFrom < m.ordinal then .infinite false
    else if negative ∧ vanishesTo < m.ordinal then zero
    else nearestReal (Interval.exp? (signed negative m.quanta) unit)

/-- The pattern of both logarithms: zero goes to minus infinity, one to zero,
and negative numbers have none. -/
def logWith (enclose : Nat → (p : Nat) → Option (Interval p)) : Binary64 → Binary64
  | .nan => .nan
  | .infinite negative => if negative then .nan else .infinite false
  | .finite negative m =>
    if m.ordinal = 0 then .infinite true
    else if negative then .nan
    else if m.quanta = unit then zero
    else nearestReal (enclose m.quanta)

/-- The natural logarithm. -/
def log : Binary64 → Binary64 := logWith fun n p => some (Interval.log n 1074 p)

/-- The decimal logarithm. -/
def log10 : Binary64 → Binary64 := logWith fun n p => Interval.log10? n 1074 p

theorem isFinite_zero : zero.isFinite = true := rfl

/-- The exponential of a finite number is finite, unless the number is past the
one where doubles end. -/
theorem isFinite_exp_iff (negative : Bool) (m : Magnitude) :
    (exp (.finite negative m)).isFinite = true ↔ negative = true ∨ m.ordinal ≤ overflowsFrom := by
  unfold exp
  by_cases h1 : (!negative) = true ∧ overflowsFrom < m.ordinal
  · simp only [if_pos h1]
    cases negative
    · have := h1.2
      simp [isFinite]; omega
    · simp at h1
  · simp only [if_neg h1]
    have h2 : negative = true ∨ m.ordinal ≤ overflowsFrom := by
      cases negative
      · simp at h1; exact Or.inr h1
      · exact Or.inl rfl
    split <;> simp [h2, isFinite_zero]

theorem isFinite_logWith (enclose : Nat → (p : Nat) → Option (Interval p)) {m : Magnitude}
    (hm : m.ordinal ≠ 0) : (logWith enclose (.finite false m)).isFinite = true := by
  unfold logWith
  simp only [if_neg hm]
  by_cases h : m.quanta = unit
  · simp only [if_pos h]; exact isFinite_zero
  · simp only [if_neg h]; exact isFinite_nearestReal _

end Binary64

end RegisterMachine
