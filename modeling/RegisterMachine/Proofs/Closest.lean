/-
# What is closest to a number

Of some values the closest to a number is one that no other is closer than; if
another one is as close, it is the even one of them (`IsClosest`). Where a third
value lies between any two even ones this tells the value, since the number
would have to be halfway between two even values and be closer to the third
(`IsClosest.value_eq`). The values here are integers or multiples of some step,
and whole numbers decide which multiple is the closest to a quotient
(`isClosest_mul_iff`): `divNearest` finds it (`isNearestMultiple_divNearest`).

Key definitions: `IsClosest`, `SeparatesEven`, `IsNearestMultiple`.
Key theorems: `IsClosest.value_eq`, `isClosest_mul_iff`, `IsNearestMultiple.unique`,
`isClosest_multiple_iff`, `IsNearestMultiple.of_abs_sub_le`,
`isNearestMultiple_divNearest`.
-/
import Mathlib.Algebra.Order.Field.Rat
import Mathlib.Algebra.Order.Ring.Abs
import Mathlib.Algebra.Ring.Parity
import Mathlib.Tactic.FieldSimp
import Mathlib.Tactic.Linarith
import RegisterMachine.Proofs.Binary64.Nearest

namespace RegisterMachine

/-! ### The closest value -/

/-- The value of `i` is as close to `r` as any, and even if another one is as close. -/
structure IsClosest {ι : Type} (value : ι → ℚ) (even : ι → Prop) (r : ℚ) (i : ι) : Prop where
  abs_sub_le (j : ι) : |r - value i| ≤ |r - value j|
  even_of_tie (j : ι) : |r - value j| = |r - value i| → value j ≠ value i → even i

/-- Between any two even values there is another value. -/
def SeparatesEven {ι : Type} (value : ι → ℚ) (even : ι → Prop) : Prop :=
  ∀ i j, even i → even j → value i < value j → ∃ l, value i < value l ∧ value l < value j

section IsClosest

variable {ι : Type} {value : ι → ℚ} {even : ι → Prop} {r : ℚ} {i j : ι}

/-- Two different values are not both the closest. -/
theorem IsClosest.not_lt (hseparates : SeparatesEven value even) (hi : IsClosest value even r i)
    (hj : IsClosest value even r j) : ¬ value i < value j := by
  intro hlt
  have htie : |r - value i| = |r - value j| := le_antisymm (hi.abs_sub_le j) (hj.abs_sub_le i)
  have heven := hi.even_of_tie j htie.symm hlt.ne'
  have heven' := hj.even_of_tie i htie hlt.ne
  obtain ⟨l, hil, hlj⟩ := hseparates i j heven heven' hlt
  have hle := hi.abs_sub_le l
  -- the number is halfway between the two, and what lies between them is closer
  have hhalf : r - value i = value j - r := by
    rcases abs_eq_abs.1 htie with h | h
    · linarith
    · linarith
  have hpos : |r - value i| = r - value i := abs_of_pos (by linarith)
  rw [hpos] at hle
  rcases abs_cases (r - value l) with ⟨h, -⟩ | ⟨h, -⟩
  · linarith
  · linarith

/-- **The closest value is determined,** where a value lies between any two even ones. -/
theorem IsClosest.value_eq (hseparates : SeparatesEven value even)
    (hi : IsClosest value even r i) (hj : IsClosest value even r j) : value i = value j :=
  le_antisymm (le_of_not_gt (hj.not_lt hseparates hi)) (le_of_not_gt (hi.not_lt hseparates hj))

theorem IsClosest.neg (h : IsClosest value even r i) (f : ι → ι) (hf : ∀ j, value (f j) = -value j)
    (hff : ∀ j, f (f j) = j) (heven : even i → even (f i)) : IsClosest value even (-r) (f i) := by
  have habs : ∀ j, |-r - value j| = |r - value (f j)| := by
    intro j
    rw [hf, ← abs_neg (r - -value j)]
    congr 1
    ring
  refine ⟨fun j => ?_, fun j htie hne => ?_⟩
  · rw [habs, habs, hff]
    exact h.abs_sub_le (f j)
  · rw [habs, habs, hff] at htie
    apply heven
    apply h.even_of_tie (f j) htie
    intro heq
    apply hne
    rw [hf, ← heq, hf, neg_neg]

end IsClosest

/-! ### Integers and multiples of a step -/

section Multiples

variable {step : ℚ} (hstep : 0 < step)

include hstep

/-- How far a quotient is from a multiple, in steps and parts of the divisor. -/
theorem abs_sub_mul (a z : ℤ) {d : ℕ} (hd : 0 < d) :
    |(a : ℚ) / d * step - z * step| = (a - d * z).natAbs * (step / d) := by
  have hd' : (0 : ℚ) < d := Nat.cast_pos.2 hd
  have hdiff : (a : ℚ) / d * step - z * step = (a - d * z : ℤ) * (step / d) := by
    push_cast
    field_simp
  rw [hdiff, abs_mul, abs_of_pos (div_pos hstep hd'), Nat.cast_natAbs, Int.cast_abs]

/-- **Whole numbers decide which of some multiples is the closest.** -/
theorem isClosest_mul_iff {ι : Type} (z : ι → ℤ) (even : ι → Prop) (a : ℤ) {d : ℕ} (hd : 0 < d)
    (i : ι) :
    IsClosest (fun j => z j * step) even (a / d * step) i ↔
      (∀ j, (a - d * z i).natAbs ≤ (a - d * z j).natAbs) ∧
      ∀ j, (a - d * z j).natAbs = (a - d * z i).natAbs → z j ≠ z i → even i := by
  have hpart : 0 < step / d := div_pos hstep (Nat.cast_pos.2 hd)
  have hle : ∀ j, |(a : ℚ) / d * step - z i * step| ≤ |(a : ℚ) / d * step - z j * step| ↔
      (a - d * z i).natAbs ≤ (a - d * z j).natAbs := by
    intro j
    rw [abs_sub_mul hstep a _ hd, abs_sub_mul hstep a _ hd, mul_le_mul_iff_left₀ hpart, Nat.cast_le]
  have heq : ∀ j, |(a : ℚ) / d * step - z j * step| = |(a : ℚ) / d * step - z i * step| ↔
      (a - d * z j).natAbs = (a - d * z i).natAbs := by
    intro j
    rw [abs_sub_mul hstep a _ hd, abs_sub_mul hstep a _ hd, mul_left_inj' hpart.ne', Nat.cast_inj]
  have hvalue : ∀ j, (z j : ℚ) * step = z i * step ↔ z j = z i := by
    intro j
    rw [mul_left_inj' hstep.ne', Int.cast_inj]
  constructor
  · intro h
    exact ⟨fun j => (hle j).1 (h.abs_sub_le j),
      fun j htie hne => h.even_of_tie j ((heq j).2 htie) fun h => hne ((hvalue j).1 h)⟩
  · intro h'
    obtain ⟨h, heven⟩ := h'
    exact ⟨fun j => (hle j).2 (h j),
      fun j htie hne => heven j ((heq j).1 htie) fun h => hne ((hvalue j).2 h)⟩

end Multiples

/-- The number is a multiple of the step, the closest to `r`, and if two are equally
close the one with an even quotient. -/
def IsNearestMultiple (step r multiple : ℚ) : Prop :=
  ∃ k : ℤ, multiple = k * step ∧ IsClosest (fun j : ℤ => j * step) Even r k

theorem separatesEven_multiples {step : ℚ} (hstep : 0 < step) :
    SeparatesEven (fun j : ℤ => j * step) Even := by
  intro i j hi hj hlt
  have hij : i < j := Int.cast_lt.1 (lt_of_mul_lt_mul_right hlt hstep.le)
  obtain ⟨a, rfl⟩ := hi
  obtain ⟨b, rfl⟩ := hj
  refine ⟨a + a + 1, ?_, ?_⟩
  · exact mul_lt_mul_of_pos_right (Int.cast_lt.2 (by omega)) hstep
  · exact mul_lt_mul_of_pos_right (Int.cast_lt.2 (by omega)) hstep

theorem IsNearestMultiple.unique {step r multiple multiple' : ℚ} (hstep : 0 < step)
    (h : IsNearestMultiple step r multiple) (h' : IsNearestMultiple step r multiple') :
    multiple = multiple' := by
  obtain ⟨k, rfl, hk⟩ := h
  obtain ⟨k', rfl, hk'⟩ := h'
  exact hk.value_eq (separatesEven_multiples hstep) hk'

/-- **The closest multiple is half a step away at most,** and even if it is half a step. -/
theorem isClosest_multiple_iff {step : ℚ} (hstep : 0 < step) {r : ℚ} {k : ℤ} :
    IsClosest (fun j : ℤ => j * step) Even r k ↔
      2 * |r - k * step| ≤ step ∧ (2 * |r - k * step| = step → Even k) := by
  constructor
  · intro h
    have hup := h.abs_sub_le (k + 1)
    have hdown := h.abs_sub_le (k - 1)
    have htieUp := h.even_of_tie (k + 1)
    have htieDown := h.even_of_tie (k - 1)
    have hupper : r - ((k + 1 : ℤ) : ℚ) * step = r - k * step - step := by push_cast; ring
    have hlower : r - ((k - 1 : ℤ) : ℚ) * step = r - k * step + step := by push_cast; ring
    have hne : ((k + 1 : ℤ) : ℚ) * step ≠ k * step := by
      rw [Ne, mul_left_inj' hstep.ne', Int.cast_inj]
      omega
    have hne' : ((k - 1 : ℤ) : ℚ) * step ≠ k * step := by
      rw [Ne, mul_left_inj' hstep.ne', Int.cast_inj]
      omega
    rw [hupper] at hup htieUp
    rw [hlower] at hdown htieDown
    -- the neighbour on the side of the number is one step further
    rcases le_total 0 (r - k * step) with hpos | hneg
    · rw [abs_of_nonneg hpos] at hup htieUp ⊢
      rcases le_abs'.1 hup with h' | h'
      · refine ⟨by linarith, fun hhalf => htieUp ?_ hne⟩
        rw [abs_of_nonpos (by linarith)]
        linarith
      · linarith
    · rw [abs_of_nonpos hneg] at hdown htieDown ⊢
      rcases le_abs'.1 hdown with h' | h'
      · linarith
      · refine ⟨by linarith, fun hhalf => htieDown ?_ hne'⟩
        rw [abs_of_nonneg (by linarith)]
        linarith
  · rintro ⟨hhalf, heven⟩
    -- every other multiple is a step from this one, and half a step from the number
    have hfar : ∀ j : ℤ, j * step ≠ k * step → step ≤ |r - j * step| + |r - k * step| := by
      intro j hne
      have hone : (1 : ℚ) ≤ |((j - k : ℤ) : ℚ)| := by
        rw [← Int.cast_abs, ← Int.cast_one, Int.cast_le]
        refine Int.one_le_abs fun hzero => hne ?_
        rw [sub_eq_zero.1 hzero]
      calc step ≤ |((j - k : ℤ) : ℚ)| * step := le_mul_of_one_le_left hstep.le hone
        _ = |(r - k * step) - (r - j * step)| := by
          rw [← abs_of_pos hstep, ← abs_mul, abs_of_pos hstep]
          congr 1
          push_cast
          ring
        _ ≤ |r - k * step| + |r - j * step| := abs_sub _ _
        _ = |r - j * step| + |r - k * step| := add_comm _ _
    refine ⟨fun j => ?_, fun j htie hne => heven ?_⟩
    · by_cases hne : (j : ℚ) * step = k * step
      · rw [hne]
      · have := hfar j hne
        linarith
    · have := hfar j hne
      linarith

/-- What is no further from the nearest multiple of a number has the same nearest multiple. -/
theorem IsNearestMultiple.of_abs_sub_le {step r s multiple : ℚ} (hstep : 0 < step)
    (h : IsNearestMultiple step r multiple) (hle : |s - multiple| ≤ |r - multiple|) :
    IsNearestMultiple step s multiple := by
  obtain ⟨k, rfl, hk⟩ := h
  rw [isClosest_multiple_iff hstep] at hk
  refine ⟨k, rfl, (isClosest_multiple_iff hstep).2 ⟨?_, fun hhalf => hk.2 ?_⟩⟩
  · linarith [hk.1]
  · linarith [hk.1]

/-- The nearest integer to a quotient is as close to it as any integer, and even if
another one is as close. -/
theorem divNearest_closest (n : ℕ) {d : ℕ} (hd : 0 < d) (j : ℤ) :
    ((n : ℤ) - d * divNearest n d).natAbs ≤ ((n : ℤ) - d * j).natAbs ∧
      (((n : ℤ) - d * j).natAbs = ((n : ℤ) - d * divNearest n d).natAbs → j ≠ divNearest n d →
        divNearest n d % 2 = 0) := by
  have hlow := divNearest_le n d
  have hhigh := le_divNearest n hd
  have heven := divNearest_even_of_tie (n := n) hd
  generalize divNearest n d = k at *
  have hup : d * (2 * k + 1) = 2 * (k * d) + d := by ring
  have hdown : d * (2 * k) = 2 * (k * d) := by ring
  have hk : (d : ℤ) * k = (k * d : ℕ) := by push_cast; ring
  rw [hup, hdown] at heven
  rw [hk]
  rcases lt_trichotomy j k with hlt | rfl | hgt
  · have hgap : (d : ℤ) * j + d ≤ (k * d : ℕ) := by
      calc (d : ℤ) * j + d = d * (j + 1) := by ring
        _ ≤ d * k := by gcongr; omega
        _ = (k * d : ℕ) := hk
    omega
  · rw [hk]
    omega
  · have hgap : ((k * d : ℕ) : ℤ) + d ≤ d * j := by
      calc ((k * d : ℕ) : ℤ) + d = d * (k + 1) := by push_cast; ring
        _ ≤ d * j := by gcongr; omega
    omega

theorem IsNearestMultiple.neg {step r multiple : ℚ} (h : IsNearestMultiple step r multiple) :
    IsNearestMultiple step (-r) (-multiple) := by
  obtain ⟨k, rfl, hk⟩ := h
  refine ⟨-k, by push_cast; ring, hk.neg (fun j : ℤ => -j) ?_ neg_neg fun h => h.neg⟩
  intro j
  push_cast
  ring

/-- **The nearest integer to a quotient gives the nearest multiple.** -/
theorem isNearestMultiple_divNearest (negative : Bool) (n : ℕ) {d : ℕ} (hd : 0 < d) {step : ℚ}
    (hstep : 0 < step) :
    IsNearestMultiple step (signed negative n / d * step)
      (signed negative (divNearest n d) * step) := by
  have hpos : IsNearestMultiple step ((n : ℤ) / d * step) ((divNearest n d : ℤ) * step) := by
    refine ⟨divNearest n d, rfl, (isClosest_mul_iff hstep id Even n hd _).2 ⟨?_, ?_⟩⟩
    · intro j
      exact (divNearest_closest n hd j).1
    · intro j htie hne
      rw [Int.even_coe_nat, Nat.even_iff]
      exact (divNearest_closest n hd j).2 htie hne
  cases negative with
  | false => exact hpos
  | true =>
    have hneg := hpos.neg
    rw [← neg_mul, ← neg_mul, ← neg_div, ← Int.cast_neg, ← Int.cast_neg] at hneg
    exact hneg

end RegisterMachine
