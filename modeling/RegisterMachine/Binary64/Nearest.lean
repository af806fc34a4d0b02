/-
# The double nearest to an exact value

An exact value is given as a quotient `n / d` of natural numbers, in quanta,
with a sign beside it. `nearestOrdinal` finds the last place its mantissa
reaches, divides there to the nearest integer (`divNearest`), and puts place and
mantissa together; a mantissa that rounds up to `2 ^ 53` carries into the place
by itself, since the ordinal is their sum. An ordinal past the greatest finite
one is an overflow, which `nearest` answers with an infinity and
`nearestFinite`, for values that are known to be in range, with the greatest
magnitude.

Key definitions: `nearestOrdinal`, `Binary64.nearest`, `Binary64.nearestFinite`,
`Binary64.ofInt`, `Binary64.nearestRoot`.
Key theorems: `nearestOrdinal_quanta`, `Binary64.nearest_quanta`.
-/
import RegisterMachine.Rounding
import RegisterMachine.Binary64.Basic

namespace RegisterMachine

/-- The ordinal nearest to `n / d` quanta, a tie going to the even mantissa. It
has no upper bound: the magnitudes are continued past the greatest one. -/
def nearestOrdinal (n d : Nat) : Nat :=
  let place := (n / d).log2 - 52
  place * 2 ^ 52 + divNearest n (d * 2 ^ place)

@[simp]
theorem nearestOrdinal_zero (d : Nat) : nearestOrdinal 0 d = 0 := by
  simp [nearestOrdinal]

/-- The last place of a magnitude can be read off its value. -/
theorem Magnitude.log2_quanta (m : Magnitude) : m.quanta.log2 - 52 = m.place := by
  unfold quanta
  by_cases hp : m.place = 0
  · rw [hp, Nat.pow_zero, Nat.mul_one]
    by_cases h0 : m.mantissa = 0
    · rw [h0]; decide
    · have := (Nat.log2_lt h0).2 m.mantissa_lt
      omega
  · have hle := m.le_mantissa (by omega)
    have hlt := m.mantissa_lt
    have hne : m.mantissa * 2 ^ m.place ≠ 0 := by
      have := Nat.two_pow_pos m.place
      exact Nat.ne_of_gt (Nat.mul_pos (by omega) this)
    have h1 : 52 + m.place ≤ (m.mantissa * 2 ^ m.place).log2 := by
      rw [Nat.le_log2 hne, Nat.pow_add]
      exact Nat.mul_le_mul_right _ hle
    have h2 : (m.mantissa * 2 ^ m.place).log2 < 53 + m.place := by
      rw [Nat.log2_lt hne, Nat.pow_add]
      exact Nat.mul_lt_mul_of_pos_right hlt (Nat.two_pow_pos _)
    omega

/-- **A magnitude is the nearest one to its own value.** -/
theorem nearestOrdinal_quanta (m : Magnitude) {d : Nat} (hd : 0 < d) :
    nearestOrdinal (m.quanta * d) d = m.ordinal := by
  unfold nearestOrdinal
  simp only [Nat.mul_div_cancel _ hd, m.log2_quanta]
  have h : m.quanta * d = d * 2 ^ m.place * m.mantissa := by
    unfold Magnitude.quanta
    simp only [Nat.mul_comm, Nat.mul_left_comm]
  rw [h, divNearest_mul_left _ (Nat.mul_pos hd (Nat.two_pow_pos _)), ← m.ordinal_eq]

namespace Binary64

/-- The double nearest to `n / d` quanta, with the given sign. -/
def nearest (negative : Bool) (n d : Nat) : Binary64 :=
  if h : nearestOrdinal n d < ordinalBound then .finite negative ⟨nearestOrdinal n d, h⟩
  else .infinite negative

/-- The finite double nearest to `n / d` quanta, with the given sign. -/
def nearestFinite (negative : Bool) (n d : Nat) : Binary64 :=
  .finite negative ⟨min (nearestOrdinal n d) (ordinalBound - 1), by unfold ordinalBound; omega⟩

/-- The double nearest to an integer. -/
def ofInt (n : Int) : Binary64 := nearest (n < 0) (n.natAbs * unit) 1

/-- The double nearest to the square root of `n` square quanta. The root is cut
to quarters of a quantum; an eighth stands for all that is cut off, so that it
never makes or breaks a tie. -/
def nearestRoot (negative : Bool) (n : Nat) : Binary64 :=
  let root := (16 * n).sqrt
  let rest := if root * root = 16 * n then 0 else 1
  nearest negative (2 * root + rest) 8

theorem nearest_quanta (negative : Bool) (m : Magnitude) {d : Nat} (hd : 0 < d) :
    nearest negative (m.quanta * d) d = .finite negative m := by
  have h := nearestOrdinal_quanta m hd
  have hm := m.ordinal_lt
  unfold nearest
  rw [dif_pos (by omega)]
  simp [h]

end Binary64

end RegisterMachine
