/-
# Binary floating-point numbers of 64 bits

A finite number is a sign and a magnitude. The magnitudes are finitely many
and they are numbered in increasing order, so a magnitude is its ordinal: zero
is number 0, the least positive magnitude (the *quantum*, `2 ^ (-1074)`) is
number 1, and the ordinal read in binary is the exponent field followed by the
fraction field of the interchange encoding. Every magnitude is a natural
number of quanta, `Magnitude.quanta`, and with its sign an integer of quanta,
`Binary64.quanta?`. That integer is the exact value, and all arithmetic of the
library is arithmetic on it.

There is one NaN, which stands for all of them. Their payloads are never
observed, and their sign is observed in one place, the text of a complex number
whose imaginary part is NaN. Arithmetic does not say what that sign is, so the
text takes it as a parameter and no number carries it.

Key definitions: `Magnitude`, `Magnitude.quanta`, `Binary64`, `Binary64.ofBits`,
`Binary64.bits`, `Binary64.quanta?`, `Binary64.rank?`.
Key theorems: `Magnitude.quanta_injective`, `Binary64.ofBits_bits`.
-/
import RegisterMachine.Rounding

namespace RegisterMachine

/-- One more than the greatest ordinal of a finite magnitude. -/
abbrev ordinalBound : Nat := 2047 * 2 ^ 52

/-- An integer with the given sign and absolute value. -/
def signed (negative : Bool) (n : Nat) : Int := if negative then -n else n

@[simp]
theorem signed_false (n : Nat) : signed false n = n := by simp [signed]

@[simp]
theorem signed_true (n : Nat) : signed true n = -n := by simp [signed]

theorem signed_natAbs (n : Int) : signed (n < 0) n.natAbs = n := by
  by_cases hn : n < 0
  · simp only [hn, decide_true, signed_true]
    omega
  · simp only [hn, decide_false, signed_false]
    omega

/-- The sign of an integer can be told unless it is zero. -/
theorem decide_signed_lt_zero (negative : Bool) {n : Nat} (hn : n ≠ 0) :
    decide (signed negative n < 0) = negative := by
  cases negative with
  | false => exact decide_eq_false (by rw [signed_false]; omega)
  | true => exact decide_eq_true (by rw [signed_true]; omega)

theorem signed_mul (negative : Bool) (n k : Nat) :
    signed negative (n * k) = signed negative n * k := by
  cases negative with
  | false => rfl
  | true => exact (Int.neg_mul (n : Int) k).symm

/-- The absolute value of a finite double, given by its place in the increasing
order of these values. -/
structure Magnitude where
  ordinal : Nat
  ordinal_lt : ordinal < ordinalBound := by decide
  deriving DecidableEq

namespace Magnitude

/-- The magnitude zero. -/
def zero : Magnitude := ⟨0, by decide⟩

/-- The greatest finite magnitude. -/
def greatest : Magnitude := ⟨ordinalBound - 1, by decide⟩

/-- The binary place of the last bit of the mantissa, counted from the quantum. -/
def place (m : Magnitude) : Nat := m.ordinal / 2 ^ 52 - 1

/-- The mantissa: fifty-three bits, or fewer when the last place is the quantum. -/
def mantissa (m : Magnitude) : Nat := m.ordinal - m.place * 2 ^ 52

/-- The exact value, as a number of quanta. -/
def quanta (m : Magnitude) : Nat := m.mantissa * 2 ^ m.place

theorem mantissa_lt (m : Magnitude) : m.mantissa < 2 ^ 53 := by
  unfold mantissa place; omega

/-- Above the last place of all, the mantissa fills its fifty-three bits. -/
theorem le_mantissa (m : Magnitude) (h : 0 < m.place) : 2 ^ 52 ≤ m.mantissa := by
  unfold mantissa place at *; omega

/-- The ordinal is the last place, in steps of `2 ^ 52`, and the mantissa. -/
theorem ordinal_eq (m : Magnitude) : m.ordinal = m.place * 2 ^ 52 + m.mantissa := by
  unfold mantissa place; omega

theorem place_lt (m : Magnitude) : m.place < 2046 := by
  have := m.ordinal_lt
  unfold place ordinalBound at *; omega

theorem place_le_place {a b : Magnitude} (h : a.ordinal ≤ b.ordinal) : a.place ≤ b.place := by
  unfold place; omega

/-- **The ordinals are in the order of the values.** -/
theorem quanta_lt_quanta {a b : Magnitude} (h : a.ordinal < b.ordinal) : a.quanta < b.quanta := by
  have hab := place_le_place (Nat.le_of_lt h)
  have ha := a.ordinal_eq
  have hb := b.ordinal_eq
  unfold quanta
  rcases Nat.eq_or_lt_of_le hab with he | hl
  · rw [he] at ha ⊢
    exact Nat.mul_lt_mul_of_pos_right (by omega) (Nat.two_pow_pos _)
  · have h1 : a.mantissa * 2 ^ a.place < 2 ^ 53 * 2 ^ a.place :=
      Nat.mul_lt_mul_of_pos_right a.mantissa_lt (Nat.two_pow_pos _)
    have h2 : 2 ^ 52 * 2 ^ b.place ≤ b.mantissa * 2 ^ b.place :=
      Nat.mul_le_mul_right _ (b.le_mantissa (by omega))
    have h3 : 2 ^ (53 + a.place) ≤ 2 ^ (52 + b.place) := Nat.pow_le_pow_right (by omega) (by omega)
    rw [Nat.pow_add, Nat.pow_add] at h3
    omega

theorem quanta_injective {a b : Magnitude} (h : a.quanta = b.quanta) : a = b := by
  rcases Nat.lt_trichotomy a.ordinal b.ordinal with hl | he | hg
  · have := quanta_lt_quanta hl; omega
  · cases a; cases b; simp_all
  · have := quanta_lt_quanta hg; omega

end Magnitude

/-- A double: a finite number with its sign, a signed infinity, or NaN. -/
inductive Binary64 where
  | nan
  | infinite (negative : Bool)
  | finite (negative : Bool) (magnitude : Magnitude)
  deriving DecidableEq

namespace Binary64

/-- How many quanta make one. -/
def unit : Nat := 2 ^ 1074

theorem unit_pos : 0 < unit := by unfold unit; apply Nat.two_pow_pos

/-- Positive zero. -/
def zero : Binary64 := .finite false .zero

/-- The number with the given interchange encoding, of which the low sixty-four
bits count. -/
def ofBits (n : Nat) : Binary64 :=
  let negative := n / 2 ^ 63 % 2 = 1
  let ordinal := n % 2 ^ 63
  if h : ordinal < ordinalBound then .finite negative ⟨ordinal, h⟩
  else if ordinal = ordinalBound then .infinite negative
  else .nan

/-- The sign bit, in its place in the encoding. -/
def signBit (negative : Bool) : Nat := if negative then 2 ^ 63 else 0

/-- The interchange encoding. -/
def bits : Binary64 → Nat
  | .nan => 0x7ff8000000000000
  | .infinite negative => signBit negative + ordinalBound
  | .finite negative m => signBit negative + m.ordinal

theorem ofBits_bits (x : Binary64) : ofBits x.bits = x := by
  rcases x with _ | _ | ⟨s, m⟩
  · decide +kernel
  · rename_i s; cases s <;> decide +kernel
  · have hm := m.ordinal_lt
    unfold ordinalBound at hm
    cases s
    · have h1 : m.ordinal / 2 ^ 63 % 2 = 0 := by omega
      have h2 : m.ordinal % 2 ^ 63 = m.ordinal := by omega
      simp only [bits, ofBits, signBit, Bool.false_eq_true, ite_false, Nat.zero_add, h1, h2]
      rw [dif_pos (by omega)]
      simp
    · have h1 : (2 ^ 63 + m.ordinal) / 2 ^ 63 % 2 = 1 := by omega
      have h2 : (2 ^ 63 + m.ordinal) % 2 ^ 63 = m.ordinal := by omega
      simp only [bits, ofBits, signBit, ite_true, h1, h2]
      rw [dif_pos (by omega)]
      simp

/-- Is the number finite? -/
def isFinite : Binary64 → Bool
  | .finite _ _ => true
  | _ => false

/-- Is it NaN? -/
def isNaN : Binary64 → Bool
  | .nan => true
  | _ => false

/-- Is it an infinity? -/
def isInfinite : Binary64 → Bool
  | .infinite _ => true
  | _ => false

/-- Does the number carry a minus sign? Negative zero does, NaN tells nothing. -/
def isNegative : Binary64 → Bool
  | .nan => false
  | .infinite negative => negative
  | .finite negative _ => negative

/-- The opposite number; the two zeros are opposite to each other. -/
def neg : Binary64 → Binary64
  | .nan => .nan
  | .infinite negative => .infinite !negative
  | .finite negative m => .finite (!negative) m

/-- The number `x`, or its opposite. -/
def withSign (negative : Bool) (x : Binary64) : Binary64 := if negative then x.neg else x

/-- The number without its sign. -/
def abs : Binary64 → Binary64
  | .nan => .nan
  | .infinite _ => .infinite false
  | .finite _ m => .finite false m

/-- The exact value of a finite number, in quanta. -/
def quanta? : Binary64 → Option Int
  | .finite negative m => some (signed negative m.quanta)
  | _ => none

/-- Numeric equality: the two zeros are equal, and NaN differs from itself. -/
def numEq : Binary64 → Binary64 → Bool
  | .nan, _ => false
  | .infinite a, .infinite b => a == b
  | .finite a m, .finite b n => m == n && (a == b || m.ordinal == 0)
  | _, _ => false

/-- The place of a number among all doubles in increasing order, which is its ordinal with
its sign; infinities are past the finite numbers. The two zeros have one place and NaN
has none. -/
def rank? : Binary64 → Option Int
  | .nan => none
  | .infinite negative => some (signed negative ordinalBound)
  | .finite negative m => some (signed negative m.ordinal)

/-- Numeric order: NaN is not comparable. -/
def le (x y : Binary64) : Bool :=
  match x.rank?, y.rank? with
  | some a, some b => a ≤ b
  | _, _ => false

/-- Strict numeric order. -/
def lt (x y : Binary64) : Bool :=
  match x.rank?, y.rank? with
  | some a, some b => a < b
  | _, _ => false

/-- Is the number greater than zero? -/
def isPositive : Binary64 → Bool
  | .nan => false
  | .infinite negative => !negative
  | .finite negative m => !negative && m.ordinal != 0

/-- Is the number zero or greater? Negative zero is. -/
def isNonNegative : Binary64 → Bool
  | .nan => false
  | .infinite negative => !negative
  | .finite negative m => !negative || m.ordinal == 0

@[simp]
theorem neg_neg (x : Binary64) : x.neg.neg = x := by cases x <;> simp [neg]

@[simp]
theorem isFinite_neg (x : Binary64) : x.neg.isFinite = x.isFinite := by cases x <;> rfl

theorem isFinite_withSign (negative : Bool) (x : Binary64) :
    (withSign negative x).isFinite = x.isFinite := by
  cases negative <;> simp [withSign]

end Binary64

end RegisterMachine
