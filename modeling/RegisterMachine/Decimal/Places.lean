/-
# Rounding to decimal places

A number is rounded to the nearest multiple of a power of ten, a tie going to
the even multiple. Places count behind the point; negative places count tens,
hundreds and so on. Rounding is on the exact value: for a double that is the
binary value and not the text it is shown by, and the multiple that is found
is then rounded once more to the nearest double.

Behind the point a double is laid out as a decimal with that many places, and
the decimal is read back. Before the point its whole part is divided; the
fraction that is cut off counts only where the rest is half a divisor.

Places beyond the digits of a number give zero without writing the power out;
for doubles four hundred places either way are as good as any more.

Key definitions: `roundMagnitude`, `roundInteger`, `Magnitude.toPlaces`,
`Binary64.roundPlaces`.
-/
import RegisterMachine.Decimal.Basic

namespace RegisterMachine

/-- The multiple of `10 ^ shift` nearest to a natural number, the even one of two.
`above` says that a fraction was cut off the number, so that half a divisor is
more than half. The power has a word of thirty-two bits for its exponent: no
integer with fewer than `2 ^ 32` digits fills it. -/
def roundMagnitude (n shift : Nat) (above : Bool) : Nat :=
  if decimalLength n < shift then 0
  else
    let divisor := 10 ^ (shift % 2 ^ 32)
    let quotient := n / divisor
    let twice := 2 * (n % divisor)
    if divisor < twice ∨ (twice = divisor ∧ (above = true ∨ quotient % 2 = 1)) then
      (quotient + 1) * divisor
    else quotient * divisor

/-- An integer rounded to decimal places. -/
def roundInteger (n : Int) (places : Int) : Int :=
  if 0 ≤ places then n else signed (n < 0) (roundMagnitude n.natAbs places.natAbs false)

/-- Places past which every double rounds to itself or to zero. -/
def placesBound : Int := 400

/-- The decimal with some places behind the point that is nearest to a magnitude. -/
def Magnitude.toPlaces (m : Magnitude) (places : Nat) : Decimal :=
  ⟨divNearest (m.quanta * 10 ^ places) Binary64.unit, -places⟩

/-- A double rounded to decimal places. It keeps its sign; infinities and NaN
stay as they are. -/
def Binary64.roundPlaces (places : Int) : Binary64 → Binary64
  | .finite negative m =>
    let places := max (-placesBound) (min placesBound places)
    if 0 ≤ places then ofDecimal negative (m.toPlaces places.toNat)
    else
      let whole := roundMagnitude (m.quanta / unit) places.natAbs (m.quanta % unit != 0)
      nearest negative (whole * unit) 1
  | x => x

end RegisterMachine
