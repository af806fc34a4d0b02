/-
# Trigonometric functions and their inverses

An angle is reduced by the nearest multiple of a right angle, as an exact
number whatever its size, and sine and cosine of what is left are summed from
their series. Inverse tangents are halved three times before their series is
summed, and the other inverse functions are inverse tangents of quotients.
Functions that are odd are computed on the magnitude, and the sign is put back.

Key definitions: `Binary64.sin`, `Binary64.cos`, `Binary64.tan`,
`Binary64.asin`, `Binary64.acos`, `Binary64.atan`, `Binary64.atan2`.
-/
import RegisterMachine.Elementary.Settle

namespace RegisterMachine

namespace Interval

/-- A right angle, by `8 * arctan (1 / 5) - 2 * arctan (1 / 239)`. -/
def rightAngle (p : Nat) : Interval p :=
  ((oddPowers true (ofQuotient p 1 5)).scale 8).sub ((oddPowers true (ofQuotient p 1 239)).scale 2)

/-- The sine, by its series, of angles of absolute value at most one. -/
def sinSmall {p : Nat} (r : Interval p) : Interval p :=
  let factor := (r.mul r).neg
  series (fun _ t => t) (fun k t => (t.mul factor).divNat ((2 * k + 2) * (2 * k + 3))) p 0 r

/-- The cosine, by its series, of angles of absolute value at most one. -/
def cosSmall {p : Nat} (r : Interval p) : Interval p :=
  let factor := (r.mul r).neg
  series (fun _ t => t) (fun k t => (t.mul factor).divNat ((2 * k + 1) * (2 * k + 2))) p 0
    (ofInt p 1)

/-- An angle as a number of right angles and a rest of absolute value at most
one, unless the places are too few to tell. -/
def reduce? {p : Nat} (x : Interval p) : Option (Int × Interval p) :=
  let rightAngle := rightAngle p
  if rightAngle.lo ≤ 0 then none
  else
    let turns := (2 * x.lo + rightAngle.lo) / (2 * rightAngle.lo)
    let r := x.sub (rightAngle.scale turns)
    if r.radius ≤ one p then some (turns, r) else none

/-- The sine of a number of right angles and a rest. -/
def sinTurned {p : Nat} (turns : Int) (r : Interval p) : Interval p :=
  let value := if turns % 2 = 0 then sinSmall r else cosSmall r
  if turns % 4 < 2 then value else value.neg

/-- The sine of `n / d`. -/
def sin? (n d p : Nat) : Option (Interval p) :=
  (reduce? (ofQuotient p n d)).map fun (turns, r) => sinTurned turns r

/-- The cosine of `n / d`: the sine a right angle further. -/
def cos? (n d p : Nat) : Option (Interval p) :=
  (reduce? (ofQuotient p n d)).map fun (turns, r) => sinTurned (turns + 1) r

/-- The tangent of `n / d`. -/
def tan? (n d p : Nat) : Option (Interval p) := do
  let (turns, r) ← reduce? (ofQuotient p n d)
  (sinTurned turns r).div? (sinTurned (turns + 1) r)

/-- The tangent of half the angle whose tangent is given. -/
def halveTangent? {p : Nat} (t : Interval p) : Option (Interval p) :=
  t.div? ((ofInt p 1).add ((ofInt p 1).add (t.mul t)).sqrt)

/-- The angle, of at most half a right angle, whose tangent is given. -/
def arctan? {p : Nat} (t : Interval p) : Option (Interval p) := do
  let t ← halveTangent? t
  let t ← halveTangent? t
  let t ← halveTangent? t
  some ((oddPowers true t.nonNegative).scale 8).nonNegative

/-- The angle, in the first quadrant, of the direction `(x, y)`. The quotient
is taken of the smaller by the greater coordinate. -/
def angle? {p : Nat} (y x : Interval p) : Option (Interval p) :=
  if y.hi ≤ x.hi then do arctan? (← y.div? x)
  else do some ((rightAngle p).sub (← arctan? (← x.div? y)))

/-- The angle, in the first quadrant, of the direction `(m, n)`. -/
def angleOf? (n m p : Nat) : Option (Interval p) :=
  if n ≤ m then arctan? (ofQuotient p n m)
  else do some ((rightAngle p).sub (← arctan? (ofQuotient p m n)))

/-- The other coordinate of the point of the unit circle whose one coordinate
is `n / d`, for `n ≤ d`. -/
def coordinate (n d p : Nat) : Interval p :=
  (ofQuotient p ((d - n) * (d + n) : Nat) (d * d)).nonNegative.sqrt

end Interval

namespace Binary64

/-- The double nearest to four right angles over two. -/
def pi : Binary64 := ofBits 0x400921fb54442d18

/-- The double nearest to a right angle. -/
def halfPi : Binary64 := ofBits 0x3ff921fb54442d18

/-- The double nearest to half a right angle. -/
def quarterPi : Binary64 := ofBits 0x3fe921fb54442d18

/-- The double nearest to three halves of a right angle. -/
def threeQuarterPi : Binary64 := ofBits 0x4002d97c7f3321d2

/-- The sine; an infinite angle has none. -/
def sin : Binary64 → Binary64
  | .nan => .nan
  | .infinite _ => .nan
  | .finite negative m =>
    if m.ordinal = 0 then .finite negative m
    else withSign negative (nearestReal (Interval.sin? m.quanta unit))

/-- The cosine; an infinite angle has none. -/
def cos : Binary64 → Binary64
  | .nan => .nan
  | .infinite _ => .nan
  | .finite _ m => nearestReal (Interval.cos? m.quanta unit)

/-- The tangent; an infinite angle has none. -/
def tan : Binary64 → Binary64
  | .nan => .nan
  | .infinite _ => .nan
  | .finite negative m =>
    if m.ordinal = 0 then .finite negative m
    else withSign negative (nearestReal (Interval.tan? m.quanta unit))

/-- The inverse sine, of numbers from minus one to one. -/
def asin : Binary64 → Binary64
  | .finite negative m =>
    if m.ordinal = 0 then .finite negative m
    else if unit < m.quanta then .nan
    else
      let coordinate := Interval.coordinate m.quanta unit
      withSign negative (nearestReal fun p =>
        Interval.angle? (.ofQuotient p m.quanta unit) (coordinate p))
  | _ => .nan

/-- The inverse cosine, of numbers from minus one to one. -/
def acos : Binary64 → Binary64
  | .finite negative m =>
    if unit < m.quanta then .nan
    else if m.quanta = unit ∧ !negative then zero
    else
      let coordinate := Interval.coordinate m.quanta unit
      nearestReal fun p => do
        let angle ← Interval.angle? (coordinate p) (.ofQuotient p m.quanta unit)
        if negative then some (((Interval.rightAngle p).scale 2).sub angle) else some angle
  | _ => .nan

/-- The inverse tangent. -/
def atan : Binary64 → Binary64
  | .nan => .nan
  | .infinite negative => withSign negative halfPi
  | .finite negative m =>
    if m.ordinal = 0 then .finite negative m
    else withSign negative (nearestReal (Interval.angleOf? m.quanta unit))

/-- The angle of the direction `(x, y)`, from minus to plus two right angles. A
zero or infinite coordinate stands for its limit, with its sign. -/
def atan2 (y x : Binary64) : Binary64 :=
  match y, x with
  | .nan, _ => .nan
  | _, .nan => .nan
  | .infinite s, .infinite t => withSign s (if t then threeQuarterPi else quarterPi)
  | .infinite s, .finite _ _ => withSign s halfPi
  | .finite s _, .infinite t => withSign s (if t then pi else zero)
  | .finite s n, .finite t m =>
    if n.ordinal = 0 then withSign s (if t then pi else zero)
    else if m.ordinal = 0 then withSign s halfPi
    else withSign s (nearestReal fun p => do
      let angle ← Interval.angleOf? n.quanta m.quanta p
      if t then some (((Interval.rightAngle p).scale 2).sub angle) else some angle)

end Binary64

end RegisterMachine
