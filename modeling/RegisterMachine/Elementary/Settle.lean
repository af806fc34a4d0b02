/-
# From intervals to the nearest double

A real number that lies in an interval whose two ends have the same nearest
double has that nearest double itself. `settle` tries intervals of more and
more places until the ends agree. The value zero and the values half way
between two doubles would never be settled; the elementary functions take the
first only at arguments that are set aside, and the second nowhere.

What `settle` answers is always finite: it is used only where the value is
known to be in range.

Key definitions: `Interval.lower`, `Interval.upper`, `settle`, `nearestReal`.
Key theorems: `isFinite_nearestReal`.
-/
import RegisterMachine.Binary64.Nearest
import RegisterMachine.Elementary.Interval

namespace RegisterMachine

/-- The finite double nearest to `n` steps of `2 ^ (-places)`. -/
def nearestDyadic (n : Int) (places : Nat) : Binary64 :=
  .nearestFinite (n < 0) (n.natAbs * Binary64.unit) (2 ^ places)

namespace Interval

/-- The double nearest to the lower end. -/
def lower {p : Nat} (a : Interval p) : Binary64 := nearestDyadic a.lo p

/-- The double nearest to the upper end. -/
def upper {p : Nat} (a : Interval p) : Binary64 := nearestDyadic a.hi p

end Interval

/-- The double on which both ends of an interval agree, the places being
doubled at most `fuel` times. -/
def settle (enclose : (p : Nat) → Option (Interval p)) : Nat → Nat → Binary64
  | 0, p => (enclose p).elim (nearestDyadic 0 p) Interval.lower
  | fuel + 1, p =>
    match enclose p with
    | some a => if a.lower = a.upper then a.lower else settle enclose fuel (2 * p)
    | none => settle enclose fuel (2 * p)

/-- The double nearest to the real number that `enclose` holds, found with at
least one hundred and twenty-eight places and at most 8192. -/
@[irreducible]
def nearestReal (enclose : (p : Nat) → Option (Interval p)) : Binary64 :=
  settle enclose 6 128

theorem isFinite_settle (enclose : (p : Nat) → Option (Interval p)) (fuel p : Nat) :
    (settle enclose fuel p).isFinite = true := by
  induction fuel generalizing p with
  | zero => unfold settle; cases enclose p <;> rfl
  | succ fuel ih =>
    unfold settle
    cases enclose p with
    | none => exact ih _
    | some a =>
      dsimp only
      split
      · rfl
      · exact ih _

@[simp]
theorem isFinite_nearestReal (enclose : (p : Nat) → Option (Interval p)) :
    (nearestReal enclose).isFinite = true := by
  unfold nearestReal
  exact isFinite_settle _ _ _

end RegisterMachine
