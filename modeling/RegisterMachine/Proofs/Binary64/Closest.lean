/-
# The double closest to a number

The value of a finite double is a rational number, its exact number of quanta
times the quantum. A double is the nearest one to a number if it is the closest
of all finite doubles, an even one of two equally close; from `2 ^ 1024 - 2 ^ 970`
on, where a mantissa of fifty-three bits would carry past the greatest double,
it is the infinity of the number's sign (`Binary64.IsNearest`). Up to the sign
of a zero this tells the double (`Binary64.IsNearest.unique`), and
`Binary64.nearest` finds it (`Binary64.isNearest_nearest`).

Key definitions: `Binary64.quantum`, `Binary64.value`, `Binary64.IsNearest`.
Key theorems: `Binary64.IsNearest.unique`, `nearestOrdinal_closest`,
`Binary64.isNearest_nearest`, `Binary64.nearest_of_near`.
-/
import RegisterMachine.Proofs.Binary64.Overflow
import RegisterMachine.Proofs.Closest

namespace RegisterMachine

namespace Binary64

/-! ### The values of doubles -/

/-- The least positive double as a rational number. -/
def quantum : ℚ := 1 / unit

theorem quantum_pos : 0 < quantum := one_div_pos.2 (Nat.cast_pos.2 unit_pos)

/-- The value of a finite double; zero for the others. -/
def value (x : Binary64) : ℚ := x.exact * quantum

/-- The values of finite doubles, by sign and magnitude. -/
def finiteValue (i : Bool × Magnitude) : ℚ := (finite i.1 i.2).value

/-- The last bit of the mantissa is zero. -/
def EvenMantissa (i : Bool × Magnitude) : Prop := i.2.ordinal % 2 = 0

/-- The double is the closest to `r`, an even one of two that are equally close; past
the doubles it is the infinity with the sign of `r`. -/
inductive IsNearest (r : ℚ) : Binary64 → Prop
  | infinite {negative : Bool} (overflow : integerOverflow ≤ |r|)
      (sign : r < 0 ↔ negative = true) : IsNearest r (.infinite negative)
  | finite {negative : Bool} {m : Magnitude} (below : |r| < integerOverflow)
      (closest : IsClosest finiteValue EvenMantissa r (negative, m)) :
      IsNearest r (.finite negative m)

/-! ### There is one nearest double -/

theorem finiteValue_lt_iff {i j : Bool × Magnitude} :
    finiteValue i < finiteValue j ↔ signed i.1 i.2.ordinal < signed j.1 j.2.ordinal := by
  obtain ⟨s, m⟩ := i
  obtain ⟨t, n⟩ := j
  have hlt : m.quanta < n.quanta ↔ m.ordinal < n.ordinal := ordinalQuanta_strictMono.lt_iff_lt
  have hgt : n.quanta < m.quanta ↔ n.ordinal < m.ordinal := ordinalQuanta_strictMono.lt_iff_lt
  have hm : Magnitude.zero.quanta < m.quanta ↔ 0 < m.ordinal := ordinalQuanta_strictMono.lt_iff_lt
  have hn : Magnitude.zero.quanta < n.quanta ↔ 0 < n.ordinal := ordinalQuanta_strictMono.lt_iff_lt
  have hzero : Magnitude.zero.quanta = 0 := by decide
  rw [finiteValue, finiteValue, value, value, mul_lt_mul_iff_left₀ quantum_pos, Int.cast_lt]
  show signed s m.quanta < signed t n.quanta ↔ signed s m.ordinal < signed t n.ordinal
  cases s <;> cases t <;> simp only [signed, Bool.false_eq_true, if_true, if_false] <;> omega

theorem exists_signed_ordinal {z : ℤ} (h : z.natAbs < ordinalBound) :
    ∃ i : Bool × Magnitude, signed i.1 i.2.ordinal = z :=
  ⟨(decide (z < 0), ⟨z.natAbs, h⟩), signed_natAbs z⟩

/-- Between two doubles with even mantissas there is another one. -/
theorem separatesEven_finiteValue : SeparatesEven finiteValue EvenMantissa := by
  intro i j hi hj hlt
  rw [finiteValue_lt_iff] at hlt
  have hi' := natAbs_signed i.1 i.2.ordinal
  have hj' := natAbs_signed j.1 j.2.ordinal
  have hibound := i.2.ordinal_lt
  have hjbound := j.2.ordinal_lt
  unfold EvenMantissa at hi hj
  obtain ⟨l, hl⟩ := exists_signed_ordinal (z := signed i.1 i.2.ordinal + 1) (by omega)
  refine ⟨l, ?_, ?_⟩
  · rw [finiteValue_lt_iff, hl]
    omega
  · rw [finiteValue_lt_iff, hl]
    omega

/-- **The nearest double is determined,** up to the sign of a zero. -/
theorem IsNearest.unique {r : ℚ} {y y' : Binary64} (h : y.IsNearest r) (h' : y'.IsNearest r)
    (hsign : y.isNegative = y'.isNegative) : y = y' := by
  rcases h with ⟨hover, -⟩ | @⟨s, m, hbelow, hm⟩
  · rcases h' with - | ⟨hbelow', -⟩
    · exact congrArg Binary64.infinite hsign
    · exact absurd hbelow' hover.not_gt
  · rcases h' with ⟨hover', -⟩ | @⟨t, n, -, hn⟩
    · exact absurd hbelow hover'.not_gt
    · obtain rfl : s = t := hsign
      have heq := hm.value_eq separatesEven_finiteValue hn
      have hle : ¬ signed s m.ordinal < signed s n.ordinal := fun h =>
        heq.not_lt (finiteValue_lt_iff.2 h)
      have hge : ¬ signed s n.ordinal < signed s m.ordinal := fun h =>
        heq.not_gt (finiteValue_lt_iff.2 h)
      have hordinal := natAbs_signed s m.ordinal
      rw [show signed s m.ordinal = signed s n.ordinal by omega, natAbs_signed] at hordinal
      rw [show m = n from Magnitude.quanta_injective (congrArg ordinalQuanta hordinal.symm)]

end Binary64

/-! ### Rounding finds it -/

/-- The value of the nearest ordinal is as close as any, and the ordinal is even if
another value is as close. -/
theorem nearestOrdinal_closest (n : ℕ) {d : ℕ} (hd : 0 < d) (j : ℕ) :
    ((n : ℤ) - d * ordinalQuanta (nearestOrdinal n d)).natAbs ≤
        ((n : ℤ) - d * ordinalQuanta j).natAbs ∧
      (((n : ℤ) - d * ordinalQuanta j).natAbs =
          ((n : ℤ) - d * ordinalQuanta (nearestOrdinal n d)).natAbs →
        j ≠ nearestOrdinal n d → nearestOrdinal n d % 2 = 0) := by
  have hupper := belowMidpoint_nearestOrdinal n hd
  have hlower : ∀ k, k + 1 = nearestOrdinal n d → ¬ BelowMidpoint n d k := fun k =>
    not_belowMidpoint_of_lt_nearestOrdinal n hd
  generalize nearestOrdinal n d = k at *
  unfold BelowMidpoint midpoint at hupper
  rw [Nat.mul_add] at hupper
  rw [← Nat.cast_mul, ← Nat.cast_mul]
  rcases Nat.lt_trichotomy j k with hlt | rfl | hgt
  · obtain ⟨i, rfl⟩ : ∃ i, k = i + 1 := ⟨k - 1, by omega⟩
    have hmid := hlower i rfl
    have hji : d * ordinalQuanta j ≤ d * ordinalQuanta i :=
      Nat.mul_le_mul_left d (ordinalQuanta_strictMono.monotone (by omega))
    have hik : d * ordinalQuanta i < d * ordinalQuanta (i + 1) :=
      Nat.mul_lt_mul_of_pos_left (ordinalQuanta_strictMono (Nat.lt_succ_self i)) hd
    unfold BelowMidpoint midpoint at hmid
    rw [Nat.mul_add] at hmid
    omega
  · omega
  · have hkj : d * ordinalQuanta (k + 1) ≤ d * ordinalQuanta j :=
      Nat.mul_le_mul_left d (ordinalQuanta_strictMono.monotone hgt)
    have hstep : d * ordinalQuanta k < d * ordinalQuanta (k + 1) :=
      Nat.mul_lt_mul_of_pos_left (ordinalQuanta_strictMono (Nat.lt_succ_self k)) hd
    omega

namespace Binary64

/-- A quotient is nearer to values of its own sign. -/
theorem natAbs_signed_sub (s t : Bool) (n d q : ℕ) :
    (signed s n - d * signed t q).natAbs =
      if s = t then ((n : ℤ) - d * q).natAbs else n + d * q := by
  have hneg : (d : ℤ) * -(q : ℤ) = -(d * q : ℕ) := by push_cast; ring
  have hpos : (d : ℤ) * (q : ℤ) = (d * q : ℕ) := (Nat.cast_mul d q).symm
  cases s <;> cases t <;> simp only [signed, Bool.false_eq_true, if_true, if_false, hneg, hpos,
    reduceCtorEq] <;> omega

theorem abs_signed_div (negative : Bool) (n d : ℕ) :
    |(signed negative n : ℚ) / d * quantum| = n / d * quantum := by
  rw [abs_mul, abs_div, abs_of_pos quantum_pos, Nat.abs_cast, ← Int.cast_abs, ← Int.natCast_natAbs,
    natAbs_signed, Int.cast_natCast]

theorem div_mul_quantum_lt_iff (n : ℕ) {d : ℕ} (hd : 0 < d) :
    (n : ℚ) / d * quantum < integerOverflow ↔ n < overflowQuanta * d := by
  have hd' : (0 : ℚ) < d := Nat.cast_pos.2 hd
  have hunit : (0 : ℚ) < unit := Nat.cast_pos.2 unit_pos
  rw [quantum, mul_one_div, div_div, div_lt_iff₀ (mul_pos hd' hunit), overflowQuanta_eq,
    ← Nat.cast_mul, ← Nat.cast_mul, Nat.cast_lt, Nat.mul_comm d, Nat.mul_assoc]

theorem signed_div_neg_iff (negative : Bool) {n d : ℕ} (hn : 0 < n) (hd : 0 < d) :
    (signed negative n : ℚ) / d * quantum < 0 ↔ negative = true := by
  have hpos : (0 : ℚ) < n / d * quantum :=
    mul_pos (div_pos (Nat.cast_pos.2 hn) (Nat.cast_pos.2 hd)) quantum_pos
  cases negative with
  | false => exact iff_of_false (not_lt.2 hpos.le) (by simp)
  | true =>
    apply iff_of_true _ rfl
    show ((-(n : ℤ) : ℤ) : ℚ) / d * quantum < 0
    rw [Int.cast_neg, Int.cast_natCast, neg_div, neg_mul]
    exact neg_lt_zero.2 hpos

/-- Below the overflow the double of the nearest ordinal is the closest. -/
theorem isClosest_nearestOrdinal (negative : Bool) (n : ℕ) {d : ℕ} (hd : 0 < d)
    (hlt : nearestOrdinal n d < ordinalBound) :
    IsClosest finiteValue EvenMantissa (signed negative n / d * quantum)
      (negative, ⟨nearestOrdinal n d, hlt⟩) := by
  have hclosest := nearestOrdinal_closest n hd
  have hzero := hclosest 0
  rw [ordinalQuanta_zero] at hzero
  refine (isClosest_mul_iff quantum_pos (fun i : Bool × Magnitude => signed i.1 i.2.quanta)
    EvenMantissa _ hd _).2 ⟨fun j => ?_, fun j htie hne => ?_⟩
  · obtain ⟨t, m⟩ := j
    dsimp only
    rw [natAbs_signed_sub, natAbs_signed_sub, if_pos rfl]
    by_cases hsign : negative = t
    · rw [if_pos hsign]
      exact (hclosest m.ordinal).1
    · rw [if_neg hsign]
      exact Nat.le_trans hzero.1 (by omega)
  · obtain ⟨t, m⟩ := j
    dsimp only at htie hne
    rw [natAbs_signed_sub, natAbs_signed_sub, if_pos rfl, Magnitude.quanta_eq,
      Magnitude.quanta_eq] at htie
    by_cases hsign : negative = t
    · rw [if_pos hsign] at htie
      apply (hclosest m.ordinal).2 htie
      intro h
      apply hne
      rw [hsign, Magnitude.quanta_eq, Magnitude.quanta_eq, h]
    · -- a value of the other sign is as close only if it is zero
      rw [if_neg hsign] at htie
      dsimp only at htie
      have hm : d * ordinalQuanta m.ordinal = 0 := by omega
      apply hzero.2 (by omega)
      intro h
      apply hne
      have hm' : m.quanta = 0 := (Nat.mul_eq_zero.1 hm).resolve_left hd.ne'
      have hk : ordinalQuanta (nearestOrdinal n d) = 0 := by rw [← h, ordinalQuanta_zero]
      rw [hm', Magnitude.quanta_eq, hk]
      cases negative <;> cases t <;> rfl

/-- **Rounding finds the nearest double.** -/
theorem isNearest_nearest (negative : Bool) (n : ℕ) {d : ℕ} (hd : 0 < d) :
    (nearest negative n d).IsNearest (signed negative n / d * quantum) := by
  unfold nearest
  by_cases hlt : nearestOrdinal n d < ordinalBound
  · rw [dif_pos hlt]
    refine .finite ?_ (isClosest_nearestOrdinal negative n hd hlt)
    rw [abs_signed_div, div_mul_quantum_lt_iff n hd]
    exact (nearestOrdinal_lt_bound_iff n hd).1 hlt
  · rw [dif_neg hlt]
    rw [nearestOrdinal_lt_bound_iff n hd] at hlt
    have hover : 0 < overflowQuanta * d := Nat.mul_pos (by decide +kernel) hd
    refine .infinite ?_ (signed_div_neg_iff negative (by omega) hd)
    rw [abs_signed_div, ← not_lt, div_mul_quantum_lt_iff n hd]
    exact hlt

/-- **A number closer to a value than half the quantum is rounded to it.** -/
theorem nearest_of_near (negative : Bool) {n d : ℕ} (m : Magnitude) (hd : 0 < d)
    (hlow : 2 * (d * m.quanta) < 2 * n + d) (hhigh : 2 * n < 2 * (d * m.quanta) + d) :
    nearest negative n d = .finite negative m := by
  have hordinal : nearestOrdinal n d = m.ordinal := by
    rw [Magnitude.quanta_eq] at hlow hhigh
    rcases Nat.eq_zero_or_pos m.ordinal with hzero | hpos
    · rw [hzero, ordinalQuanta_zero] at hhigh
      rw [hzero]
      exact nearestOrdinal_eq_zero hd (by omega)
    · obtain ⟨k, hk⟩ : ∃ k, m.ordinal = k + 1 := ⟨m.ordinal - 1, by omega⟩
      have hbelow : d ≤ d * 2 ^ ordinalPlace k := Nat.le_mul_of_pos_right d (Nat.two_pow_pos _)
      have habove : d ≤ d * 2 ^ ordinalPlace (k + 1) :=
        Nat.le_mul_of_pos_right d (Nat.two_pow_pos _)
      rw [hk] at hlow hhigh ⊢
      exact nearestOrdinal_eq_of_near hd (by omega) (by omega)
  rw [nearest, dif_pos (hordinal ▸ m.ordinal_lt)]
  congr 1
  exact Magnitude.quanta_injective (congrArg ordinalQuanta hordinal)

end Binary64

end RegisterMachine
