/-
# Arithmetic on doubles

Each operation takes the exact result, an integer or a quotient of integers in
quanta, to the nearest double. Signs of zeros, infinities and NaN are the cases
around it: a sum of opposite numbers is positive zero unless both are negative
zero; infinity minus infinity, zero times infinity, and zero or infinity divided
by itself are NaN.

Key definitions: `Binary64.add`, `Binary64.sub`, `Binary64.mul`,
`Binary64.div`, `Binary64.sqrt`, `Binary64.hypot`.
-/
import RegisterMachine.Binary64.Nearest

namespace RegisterMachine.Binary64

/-- The sum, rounded once. -/
def add : Binary64 → Binary64 → Binary64
  | .nan, _ => .nan
  | _, .nan => .nan
  | .infinite a, .infinite b => if a = b then .infinite a else .nan
  | .infinite a, .finite _ _ => .infinite a
  | .finite _ _, .infinite b => .infinite b
  | .finite a m, .finite b n =>
    let sum := signed a m.quanta + signed b n.quanta
    nearest (if sum = 0 then a && b else sum < 0) sum.natAbs 1

/-- The difference, rounded once. -/
def sub (x y : Binary64) : Binary64 := x.add y.neg

/-- The product, rounded once. -/
def mul : Binary64 → Binary64 → Binary64
  | .nan, _ => .nan
  | _, .nan => .nan
  | .infinite a, .infinite b => .infinite (a != b)
  | .infinite a, .finite b n => if n.ordinal = 0 then .nan else .infinite (a != b)
  | .finite a m, .infinite b => if m.ordinal = 0 then .nan else .infinite (a != b)
  | .finite a m, .finite b n => nearest (a != b) (m.quanta * n.quanta) unit

/-- The quotient, rounded once. -/
def div : Binary64 → Binary64 → Binary64
  | .nan, _ => .nan
  | _, .nan => .nan
  | .infinite _, .infinite _ => .nan
  | .infinite a, .finite b _ => .infinite (a != b)
  | .finite a _, .infinite b => .finite (a != b) .zero
  | .finite a m, .finite b n =>
    if n.ordinal ≠ 0 then nearest (a != b) (m.quanta * unit) n.quanta
    else if m.ordinal ≠ 0 then .infinite (a != b)
    else .nan

/-- The square root, rounded once. The root of negative zero is negative zero;
of other negative numbers there is none. -/
def sqrt : Binary64 → Binary64
  | .nan => .nan
  | .infinite negative => if negative then .nan else .infinite false
  | .finite negative m =>
    if negative ∧ m.ordinal ≠ 0 then .nan else nearestRoot negative (m.quanta * unit)

/-- The length of the vector `(x, y)`, rounded once. An infinite coordinate
makes it infinite whatever the other is. Libraries compute lengths less exactly
than this, and no statement about them rests on the last place. -/
def hypot : Binary64 → Binary64 → Binary64
  | .infinite _, _ => .infinite false
  | _, .infinite _ => .infinite false
  | .nan, _ => .nan
  | _, .nan => .nan
  | .finite _ m, .finite _ n => nearestRoot false (m.quanta * m.quanta + n.quanta * n.quanta)

end RegisterMachine.Binary64
