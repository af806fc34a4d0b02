/-
# Intervals of fixed binary places

A real number that no fraction names exactly is held between two. An
`Interval places` has both ends in steps of `2 ^ (-places)`; each operation
rounds the lower end down and the upper end up, so that it holds every result
of numbers from the intervals it is given. `series` sums a power series until
its terms are below one step and then adds what the rest can amount to, for
series whose terms at least halve from one to the next.

Key definitions: `Interval`, `Interval.ofQuotient`, `Interval.mul`,
`Interval.div?`, `Interval.sqrt`, `Interval.series`.
-/
import RegisterMachine.Rounding

namespace RegisterMachine

/-- The real numbers from `lo` to `hi`, in steps of `2 ^ (-places)`. -/
structure Interval (places : Nat) where
  lo : Int
  hi : Int

namespace Interval

variable {p : Nat}

/-- The number of steps in one. -/
def one (p : Nat) : Nat := 2 ^ p

/-- The quotient `n / d`, rounded up. -/
def ceilDiv (n : Int) (d : Int) : Int := -(-n / d)

/-- An interval of the exact quotient `n / d`. -/
def ofQuotient (p : Nat) (n : Int) (d : Nat) : Interval p :=
  ⟨n * one p / d, ceilDiv (n * one p) d⟩

/-- The interval of an integer alone. -/
def ofInt (p : Nat) (n : Int) : Interval p := ⟨n * one p, n * one p⟩

/-- Sums of numbers of the two intervals. -/
def add (a b : Interval p) : Interval p := ⟨a.lo + b.lo, a.hi + b.hi⟩

/-- The opposite numbers. -/
def neg (a : Interval p) : Interval p := ⟨-a.hi, -a.lo⟩

/-- Differences of numbers of the two intervals. -/
def sub (a b : Interval p) : Interval p := a.add b.neg

/-- The multiples by an integer. -/
def scale (k : Int) (a : Interval p) : Interval p :=
  if 0 ≤ k then ⟨k * a.lo, k * a.hi⟩ else ⟨k * a.hi, k * a.lo⟩

/-- The quotients by a positive integer. -/
def divNat (a : Interval p) (k : Nat) : Interval p := ⟨a.lo / k, ceilDiv a.hi k⟩

/-- Products of numbers of the two intervals: the ends are among the products
of ends. -/
def mul (a b : Interval p) : Interval p :=
  let ll := a.lo * b.lo
  let lh := a.lo * b.hi
  let hl := a.hi * b.lo
  let hh := a.hi * b.hi
  ⟨min (min ll lh) (min hl hh) / one p, ceilDiv (max (max ll lh) (max hl hh)) (one p)⟩

/-- Quotients by numbers of an interval above zero. -/
def divPos (a b : Interval p) : Interval p :=
  ⟨a.lo * one p / (if 0 ≤ a.lo then b.hi else b.lo),
    ceilDiv (a.hi * one p) (if 0 ≤ a.hi then b.lo else b.hi)⟩

/-- Quotients of numbers of the two intervals, unless the divisor may be zero. -/
def div? (a b : Interval p) : Option (Interval p) :=
  if 0 < b.lo then some (a.divPos b)
  else if b.hi < 0 then some (a.neg.divPos b.neg)
  else none

/-- Square roots of the numbers of an interval that are not negative. -/
def sqrt (a : Interval p) : Interval p :=
  ⟨(a.lo.toNat * one p).sqrt, (a.hi.toNat * one p).sqrt + 1⟩

/-- The numbers multiplied by `2 ^ k`. -/
def shift (k : Int) (a : Interval p) : Interval p :=
  if 0 ≤ k then ⟨a.lo * (one k.toNat : Nat), a.hi * (one k.toNat : Nat)⟩
  else ⟨a.lo / (one k.natAbs : Nat), ceilDiv a.hi (one k.natAbs : Nat)⟩

/-- The part of an interval that is not negative. -/
def nonNegative (a : Interval p) : Interval p := ⟨max 0 a.lo, max 0 a.hi⟩

/-- The greatest absolute value, in steps. -/
def radius (a : Interval p) : Nat := max a.lo.natAbs a.hi.natAbs

/-- All numbers of at most twice the absolute value: what a series amounts to
from a term on, if each term is at most half the one before. -/
def rest (a : Interval p) : Interval p := ⟨-(2 * a.radius), 2 * a.radius⟩

/-- The sum of `weight k t` over the terms `t` that `next` makes one from the
other, at most `fuel` of them before the rest is estimated. -/
def series (weight next : Nat → Interval p → Interval p) : Nat → Nat → Interval p → Interval p
  | 0, _, t => t.rest
  | fuel + 1, k, t =>
    if t.radius ≤ 1 then t.rest
    else (weight k t).add (series weight next fuel (k + 1) (next k t))

/-- The sum of `t ^ (2 * k + 1) / (2 * k + 1)`, with alternating signs or
without: the inverse tangent and the inverse hyperbolic tangent. -/
def oddPowers (alternating : Bool) (t : Interval p) : Interval p :=
  let square := t.mul t
  let factor := if alternating then square.neg else square
  series (fun k u => u.divNat (2 * k + 1)) (fun _ u => u.mul factor) p 0 t

end Interval

end RegisterMachine
