/-
# When arithmetic on doubles overflows

A finite double is an integer of quanta (`Binary64.exact`), and sums and multiples
of powers of ten are finite exactly as long as their exact values are below the
overflow. Of lengths it is only said that they are no NaN. Rounding to places behind the point never overflows: a
double that has a fraction is too small, and one that has none stays as it is.

Key definitions: `Binary64.exact`.
Key theorems: `Binary64.isFinite_add_iff`, `Binary64.isFinite_sub_iff`,
`Binary64.isNaN_hypot`, `Binary64.isFinite_roundPlaces_iff`.
-/
import RegisterMachine.Binary64.Arithmetic
import RegisterMachine.Proofs.Decimal.Places

namespace RegisterMachine

namespace Binary64

/-! ### Sums and lengths -/

/-- The exact value of a finite double, in quanta; zero for the others. -/
def exact (x : Binary64) : Int := x.quanta?.getD 0

theorem natAbs_signed (negative : Bool) (n : Nat) : (signed negative n).natAbs = n := by
  cases negative <;> simp [signed]

theorem signed_not (negative : Bool) (n : Nat) : signed (!negative) n = -signed negative n := by
  cases negative <;> simp [signed]

theorem natAbs_exact (negative : Bool) (m : Magnitude) :
    (exact (.finite negative m)).natAbs = m.quanta := natAbs_signed negative m.quanta

theorem exact_neg (x : Binary64) : x.neg.exact = -x.exact := by
  match x with
  | .nan => rfl
  | .infinite _ => rfl
  | .finite negative m => exact signed_not negative m.quanta

theorem isFinite_add_iff {x y : Binary64} (hx : x.isFinite = true) (hy : y.isFinite = true) :
    (x.add y).isFinite = true ↔ (x.exact + y.exact).natAbs < overflowQuanta := by
  match x, y, hx, hy with
  | .finite s m, .finite t n, _, _ =>
    rw [add, isFinite_nearest_iff _ _ Nat.one_pos, Nat.mul_one]
    exact Iff.rfl

theorem isFinite_sub_iff {x y : Binary64} (hx : x.isFinite = true) (hy : y.isFinite = true) :
    (x.sub y).isFinite = true ↔ (x.exact - y.exact).natAbs < overflowQuanta := by
  rw [sub, isFinite_add_iff hx ((isFinite_neg y).trans hy), exact_neg, Int.sub_eq_add_neg]

theorem isNaN_add {x y : Binary64} (hx : x.isFinite = true) (hy : y.isNaN = false) :
    (x.add y).isNaN = false := by
  match x, y, hx, hy with
  | .finite _ _, .infinite _, _, _ => rfl
  | .finite _ _, .finite _ _, _, _ => exact isNaN_nearest _ _ _

theorem isNaN_sub {x y : Binary64} (hx : x.isFinite = true) (hy : y.isFinite = true) :
    (x.sub y).isNaN = false := by
  match y, hy with
  | .finite _ _, _ => exact isNaN_add hx rfl

theorem isNaN_hypot {x y : Binary64} (hx : x.isFinite = true) (hy : y.isFinite = true) :
    (x.hypot y).isNaN = false := by
  match x, y, hx, hy with
  | .finite _ _, .finite _ _, _, _ =>
    rw [hypot, nearestRoot]
    exact isNaN_nearest _ _ _

/-! ### Rounding to places -/

/-- A double with a fraction is below `2 ^ 53`. -/
theorem quanta_lt_of_not_dvd {m : Magnitude} (h : ¬ unit ∣ m.quanta) :
    m.quanta < 2 ^ 53 * unit := by
  have hplace : m.place < 1074 := by
    by_contra hle
    apply h
    rw [Magnitude.quanta, unit]
    exact Dvd.dvd.mul_left (Nat.pow_dvd_pow 2 (Nat.not_lt.1 hle)) _
  rw [Magnitude.quanta, unit]
  exact Nat.mul_lt_mul_of_lt_of_le m.mantissa_lt
    (Nat.pow_le_pow_right (by omega) (Nat.le_of_lt hplace)) (Nat.two_pow_pos _)

theorem isFinite_roundPlaces_of_nonneg {places : Int} (hplaces : 0 ≤ places) (negative : Bool)
    (m : Magnitude) : (roundPlaces places (.finite negative m)).isFinite = true := by
  have hclamp : 0 ≤ clampPlaces places := by
    unfold clampPlaces placesBound
    omega
  have hpow : 0 < 10 ^ (clampPlaces places).toNat := Nat.pow_pos (by omega)
  have htens : (-clampPlaces places).toNat = 0 := by omega
  rw [roundPlaces_finite, isFinite_nearest_iff _ _ hpow, Magnitude.multiple, htens, Nat.pow_zero,
    Nat.mul_one, Nat.mul_one]
  generalize 10 ^ (clampPlaces places).toNat = w at hpow
  have hlt := m.quanta_lt_overflowQuanta
  by_cases hdvd : unit ∣ m.quanta
  · obtain ⟨k, hk⟩ := hdvd
    have hround : divNearest (m.quanta * w) unit = k * w := by
      rw [hk, Nat.mul_assoc, divNearest_mul_left _ unit_pos]
    have hback : k * w * unit = m.quanta * w := by rw [hk]; ring
    rw [hround, hback]
    exact Nat.mul_lt_mul_of_pos_right hlt hpow
  · have hbound := divNearest_le (m.quanta * w) unit
    have hsmall := Nat.mul_lt_mul_of_pos_right (quanta_lt_of_not_dvd hdvd) hpow
    have hover : (2 ^ 53 + 1) * unit ≤ overflowQuanta := by decide +kernel
    have hscaled := Nat.mul_le_mul_right w hover
    have hunit : unit ≤ unit * w := Nat.le_mul_of_pos_right unit hpow
    rw [Nat.mul_assoc] at hsmall hscaled
    generalize unit * w = u at *
    omega

theorem isNaN_roundPlaces {x : Binary64} (hx : x.isNaN = false) (places : Int) :
    (x.roundPlaces places).isNaN = false := by
  match x, hx with
  | .infinite _, _ => rfl
  | .finite _ _, _ =>
    rw [roundPlaces_finite]
    exact isNaN_nearest _ _ _

/-- **Rounding overflows only to tens, hundreds and so on**, when the nearest
multiple is past the doubles. -/
theorem isFinite_roundPlaces_iff {x : Binary64} (hx : x.isFinite = true) (places : Int) :
    (x.roundPlaces places).isFinite = true ↔
      ¬ (places < 0 ∧ integerOverflow ≤
        divNearest x.exact.natAbs (unit * 10 ^ places.natAbs) * 10 ^ places.natAbs) := by
  match x, hx with
  | .finite negative m, _ =>
    rw [natAbs_exact]
    by_cases hneg : 0 ≤ places
    · apply iff_of_true (isFinite_roundPlaces_of_nonneg hneg negative m)
      omega
    · have htens : (clampPlaces places).toNat = 0 := by
        unfold clampPlaces placesBound
        omega
      have habs : (-clampPlaces places).toNat = min 400 places.natAbs := by
        unfold clampPlaces placesBound
        omega
      rw [roundPlaces_finite, Magnitude.multiple, htens, habs, Nat.pow_zero,
        isFinite_nearest_iff _ _ Nat.one_pos, Nat.mul_one, Nat.mul_one, overflowQuanta_eq,
        Nat.mul_lt_mul_right unit_pos]
      have hlast : divNearest m.quanta (unit * 10 ^ min 400 places.natAbs) *
          10 ^ min 400 places.natAbs =
            divNearest m.quanta (unit * 10 ^ places.natAbs) * 10 ^ places.natAbs := by
        rcases Nat.le_total places.natAbs 400 with hle | hge
        · rw [Nat.min_eq_right hle]
        · have hlt := m.quanta_lt_overflowQuanta
          have hover : 2 * overflowQuanta ≤ unit * 10 ^ 400 := by decide +kernel
          have hpow : unit * 10 ^ 400 ≤ unit * 10 ^ places.natAbs :=
            Nat.mul_le_mul_left _ (Nat.pow_le_pow_right (by omega) hge)
          rw [Nat.min_eq_left hge, divNearest_eq_zero (by omega), divNearest_eq_zero (by omega),
            Nat.zero_mul, Nat.zero_mul]
      rw [hlast]
      omega

end Binary64

end RegisterMachine
