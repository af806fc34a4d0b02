/-
# The shortest decimal that reads back

Of the decimals that are rounded to a given double, the shortest is the one
with the fewest digits, and of those with equally many the one nearest to the
double; `Tie` says which of two equally near ones is meant. The search starts
with the grid of one digit and refines it by one digit at a time. On each grid
only the two neighbours of the exact value have to be tried: if any point of
the grid reads back, the neighbour on the same side does. Seventeen digits
suffice for every double; past them the exact value stands, so that what is
found reads back by construction.

Key definitions: `Tie`, `Magnitude.shortest`.
-/
import RegisterMachine.Decimal.Basic

namespace RegisterMachine

/-- Which of two equally near decimals is chosen. -/
inductive Tie where
  | up
  | even
  deriving DecidableEq

namespace Decimal

/-- Is this decimal rounded to the magnitude `m`? -/
def readsAs (d : Decimal) (m : Magnitude) : Bool :=
  Binary64.ofDecimal false d == .finite false m

/-- The same number without zeros at the end of the coefficient, of which at
most `fuel` are dropped. -/
def strip : Nat → Decimal → Decimal
  | 0, d => d
  | fuel + 1, d =>
    if d.coefficient ≠ 0 ∧ d.coefficient % 10 = 0 then
      strip fuel ⟨d.coefficient / 10, d.exponent + 1⟩
    else d

end Decimal

/-- What `find` finds at the first of at most `fuel` exponents, going down; at none
of them, the default. -/
def firstBelow {α : Type} (find : Int → Option α) (default : α) : Nat → Int → α
  | 0, _ => default
  | fuel + 1, exponent =>
    match find exponent with
    | some a => a
    | none => firstBelow find default fuel (exponent - 1)

namespace Magnitude

/-- The exact value as a quotient, in steps of `10 ^ exponent`. -/
def inSteps (m : Magnitude) (exponent : Int) : Nat × Nat :=
  (m.quanta * 10 ^ (-exponent).toNat, Binary64.unit * 10 ^ exponent.toNat)

/-- The neighbour of `m` on the grid of step `10 ^ exponent` that reads as `m`,
the nearer one if both do. -/
def neighbour? (tie : Tie) (m : Magnitude) (exponent : Int) : Option Decimal :=
  let (n, d) := m.inSteps exponent
  let below : Decimal := ⟨n / d, exponent⟩
  let above : Decimal := ⟨n / d + 1, exponent⟩
  let rest := 2 * (n % d)
  let belowIsNearer := rest < d ∨ (rest = d ∧ tie = .even ∧ n / d % 2 = 0)
  if below.readsAs m then
    if above.readsAs m ∧ ¬ belowIsNearer then some above else some below
  else if above.readsAs m then some above
  else none

/-- The first neighbour that reads as `m`, on at most `fuel` grids of falling step. -/
def shortestFrom (tie : Tie) (m : Magnitude) (fuel : Nat) (exponent : Int) : Decimal :=
  firstBelow (m.neighbour? tie) m.exactDecimal fuel exponent

/-- The place of the leading digit: `m` lies in `[10 ^ e, 10 ^ (e + 1))`. The
factor `10 ^ 400` moves the quantum before the point. -/
def leadingExponent (m : Magnitude) : Int :=
  decimalLength (m.quanta * 10 ^ 400 / Binary64.unit) - 401

/-- The shortest decimal that reads as `m`; zero is `0`. -/
def shortest (tie : Tie) (m : Magnitude) : Decimal :=
  if m.ordinal = 0 then ⟨0, 0⟩
  else (m.shortestFrom tie 17 m.leadingExponent).strip 17

end Magnitude

end RegisterMachine
