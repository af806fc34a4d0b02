/-
# Rounding to places is one division

Both ways of rounding to decimal places come to one division to the nearest
integer. Behind the point the decimal that is laid out is read as the double
nearest to it: what is written off as too large or too small is rounded to
infinity or zero anyway (`Binary64.ofDecimal_eq`). Before the point the whole part
is divided, and the fraction that was cut off it counts only where twice the
rest is the divisor; a power of ten is even, so elsewhere the fraction cannot
reach the half (`roundMagnitude_div`). With that, rounding a double divides its
quanta once (`Magnitude.multiple`) and rounds the multiple once
(`Binary64.roundPlaces_finite`), for places up to four hundred either way.

Key definitions: `clampPlaces`, `Magnitude.multiple`.
Key theorems: `Binary64.ofDecimal_eq`, `roundMagnitude_div`,
`roundInteger_eq`, `Binary64.roundPlaces_finite`, `Binary64.roundPlaces_saturate`.
-/
import Mathlib.Tactic.Positivity
import RegisterMachine.Decimal.Places
import RegisterMachine.Value.Basic
import RegisterMachine.Proofs.Binary64.Nearest
import RegisterMachine.Proofs.Decimal.Shortest

namespace RegisterMachine

/-! ### Decimals past the doubles -/

theorem nearestOrdinal_eq_zero {n d : Nat} (hd : 0 < d) (h : 2 * n < d) :
    nearestOrdinal n d = 0 := by
  have hmid : midpoint 0 = 1 := by decide
  have hle : nearestOrdinal n d ≤ 0 := by
    rw [nearestOrdinal_le_iff n hd, BelowMidpoint, hmid]
    omega
  omega

namespace Binary64

theorem nearest_of_ordinal_zero (negative : Bool) {n d : Nat} (h : nearestOrdinal n d = 0) :
    nearest negative n d = .finite negative .zero := by
  have hlt : nearestOrdinal n d < ordinalBound := by
    rw [h]
    decide
  rw [nearest, dif_pos hlt]
  simp [Magnitude.zero, h]

theorem nearest_of_overflow (negative : Bool) {n d : Nat} (hd : 0 < d)
    (h : overflowQuanta * d ≤ n) : nearest negative n d = .infinite negative := by
  have hnot : ¬ nearestOrdinal n d < ordinalBound := by
    rw [nearestOrdinal_lt_bound_iff n hd]
    exact Nat.not_lt.2 h
  rw [nearest, dif_neg hnot]

/-- A decimal that starts more than three hundred and thirty places behind the point
is less than half a quantum. -/
theorem two_mul_decimalRatio_lt {d : Decimal}
    (h : decimalLength d.coefficient + d.exponent < -330) :
    2 * (decimalRatio d).1 < (decimalRatio d).2 := by
  have hwhole : d.exponent.toNat = 0 := by omega
  have hplaces : decimalLength d.coefficient + 330 ≤ (-d.exponent).toNat := by omega
  obtain ⟨k, hk, hunit⟩ : ∃ k, k = 330 ∧ 2 * unit ≤ 10 ^ k := ⟨330, rfl, by decide +kernel⟩
  rw [← hk] at hplaces
  have hlen := lt_pow_decimalLength d.coefficient
  rw [decimalRatio, hwhole, Nat.pow_zero, Nat.mul_one]
  calc 2 * (d.coefficient * unit) = d.coefficient * (2 * unit) := Nat.mul_left_comm ..
    _ ≤ d.coefficient * 10 ^ k := Nat.mul_le_mul_left _ hunit
    _ < 10 ^ decimalLength d.coefficient * 10 ^ k :=
      Nat.mul_lt_mul_of_pos_right hlen (Nat.pow_pos (by omega))
    _ = 10 ^ (decimalLength d.coefficient + k) := (Nat.pow_add ..).symm
    _ ≤ 10 ^ (-d.exponent).toNat := Nat.pow_le_pow_right (by omega) hplaces

/-- A decimal with more than three hundred and ten digits before the point is past
the doubles. -/
theorem overflow_le_decimalRatio {d : Decimal} (hd : d.coefficient ≠ 0)
    (h : 310 < decimalLength d.coefficient + d.exponent) :
    overflowQuanta * (decimalRatio d).2 ≤ (decimalRatio d).1 := by
  obtain ⟨k, hk, hover⟩ : ∃ k, k = 309 ∧ overflowQuanta ≤ 10 ^ k * unit :=
    ⟨309, rfl, by decide +kernel⟩
  have hlead : 10 ^ (decimalLength d.coefficient - 1) ≤ d.coefficient := by
    rcases Nat.eq_zero_or_pos (decimalLength d.coefficient - 1) with hzero | hpos
    · rw [hzero, Nat.pow_zero]
      exact Nat.pos_of_ne_zero hd
    · exact pow_le_of_lt_decimalLength hpos (by omega)
  have hexp : k + (-d.exponent).toNat ≤ decimalLength d.coefficient - 1 + d.exponent.toNat := by
    omega
  rw [decimalRatio]
  calc overflowQuanta * 10 ^ (-d.exponent).toNat
      ≤ 10 ^ k * unit * 10 ^ (-d.exponent).toNat := Nat.mul_le_mul_right _ hover
    _ = 10 ^ (k + (-d.exponent).toNat) * unit := by rw [Nat.pow_add, Nat.mul_right_comm]
    _ ≤ 10 ^ (decimalLength d.coefficient - 1 + d.exponent.toNat) * unit :=
      Nat.mul_le_mul_right _ (Nat.pow_le_pow_right (by omega) hexp)
    _ = 10 ^ (decimalLength d.coefficient - 1) * 10 ^ d.exponent.toNat * unit := by rw [Nat.pow_add]
    _ ≤ d.coefficient * 10 ^ d.exponent.toNat * unit :=
      Nat.mul_le_mul_right _ (Nat.mul_le_mul_right _ hlead)

/-- **A decimal is read as the double nearest to it,** however large or small it is. -/
theorem ofDecimal_eq (negative : Bool) (d : Decimal) :
    ofDecimal negative d = nearest negative (decimalRatio d).1 (decimalRatio d).2 := by
  have hpos : 0 < (decimalRatio d).2 := Nat.pow_pos (by omega)
  unfold ofDecimal
  dsimp only
  split
  · rename_i hsmall
    rcases hsmall with hzero | hbehind
    · rw [nearest_of_ordinal_zero]
      rw [decimalRatio, hzero, Nat.zero_mul, Nat.zero_mul, nearestOrdinal_zero]
    · rw [nearest_of_ordinal_zero]
      exact nearestOrdinal_eq_zero hpos (two_mul_decimalRatio_lt hbehind)
  · rename_i hlarge
    rw [not_or] at hlarge
    split
    · rename_i hbefore
      exact (nearest_of_overflow negative hpos (overflow_le_decimalRatio hlarge.1 hbefore)).symm
    · rfl

end Binary64

/-! ### Multiples of powers of ten -/

theorem divNearest_eq_zero {n d : Nat} (h : 2 * n < d) : divNearest n d = 0 := by
  have hquot : n / d = 0 := Nat.div_eq_of_lt (by omega)
  have hrest : n % d = n := Nat.mod_eq_of_lt (by omega)
  unfold divNearest
  rw [hquot, hrest, if_neg (by omega)]

/-- **A fraction that is cut off first can be told afterwards** by whether there was
one, if what is divided by is even: short of half the divisor the rest is so by
one at least, which no fraction makes up. -/
theorem divNearest_div {n d w : Nat} (hd : 0 < d) (heven : w % 2 = 0) :
    divNearest n (d * w) =
      if w < 2 * (n / d % w) ∨ (2 * (n / d % w) = w ∧ (n % d ≠ 0 ∨ n / d / w % 2 = 1)) then
        n / d / w + 1
      else n / d / w := by
  have hrest : n % (d * w) = d * (n / d % w) + n % d := by rw [Nat.mod_mul, Nat.add_comm]
  have hcut := Nat.mod_lt n hd
  have hscale : ∀ a b : Nat, a + 1 ≤ b → d * a + d ≤ d * b := by
    intro a b hab
    calc d * a + d = d * (a + 1) := by ring
      _ ≤ d * b := Nat.mul_le_mul_left d hab
  have htwice : d * (2 * (n / d % w)) = 2 * (d * (n / d % w)) := by ring
  unfold divNearest
  rw [hrest, ← Nat.div_div_eq_div_mul]
  apply if_congr _ rfl rfl
  rcases Nat.lt_trichotomy (2 * (n / d % w)) w with hshort | hhalf | hlong
  · have hgap : 2 * (n / d % w) + 1 + 1 ≤ w := by omega
    have h1 := hscale _ _ (Nat.le_of_succ_le hgap)
    have h2 := hscale _ _ hgap
    have h3 := hscale (2 * (n / d % w)) _ (Nat.le_refl _)
    omega
  · have htie : d * w = 2 * (d * (n / d % w)) := by rw [← htwice, hhalf]
    omega
  · have h1 := hscale _ _ hlong
    omega

theorem ten_pow_mod_two {k : Nat} (h : 0 < k) : 10 ^ k % 2 = 0 := by
  obtain ⟨j, rfl⟩ : ∃ j, k = j + 1 := ⟨k - 1, by omega⟩
  rw [Nat.pow_succ]
  omega

/-- **Rounding a whole part and what was cut off it is rounding the number.** A number
of fewer digits than places is below a tenth of the divisor, and its nearest
multiple is zero. -/
theorem roundMagnitude_div {n d shift : Nat} (hd : 0 < d) (hshift : 0 < shift)
    (hlen : decimalLength (n / d) < 2 ^ 32) :
    roundMagnitude (n / d) shift (n % d != 0) =
      divNearest n (d * 10 ^ shift) * 10 ^ shift := by
  unfold roundMagnitude
  split
  · rename_i hshort
    have hlt := lt_pow_decimalLength (n / d)
    rw [Nat.div_lt_iff_lt_mul hd] at hlt
    rw [divNearest_eq_zero, Nat.zero_mul]
    calc 2 * n < 2 * (10 ^ decimalLength (n / d) * d) := by omega
      _ ≤ 10 ^ (decimalLength (n / d) + 1) * d := by rw [Nat.pow_succ]; nlinarith
      _ ≤ 10 ^ shift * d := Nat.mul_le_mul_right d (Nat.pow_le_pow_right (by omega) hshort)
      _ = d * 10 ^ shift := Nat.mul_comm ..
  · rename_i hlong
    have hexp : shift % 2 ^ 32 = shift := Nat.mod_eq_of_lt (by omega)
    dsimp only
    rw [hexp, divNearest_div hd (ten_pow_mod_two hshift)]
    simp only [bne_iff_ne]
    split <;> rfl

/-- **An integer is rounded by one division.** -/
theorem roundInteger_eq {n places : Int} (hlen : decimalLength n.natAbs < 2 ^ 32) :
    roundInteger n places =
      if 0 ≤ places then n
      else signed (n < 0) (divNearest n.natAbs (10 ^ places.natAbs) * 10 ^ places.natAbs) := by
  unfold roundInteger
  by_cases hplaces : 0 ≤ places
  · rw [if_pos hplaces, if_pos hplaces]
  · have hround := @roundMagnitude_div n.natAbs 1 places.natAbs Nat.one_pos (by omega)
      (by rwa [Nat.div_one])
    have hcut : (n.natAbs % 1 != 0) = false := by simp [Nat.mod_one]
    rw [Nat.div_one, Nat.one_mul, hcut] at hround
    rw [if_neg hplaces, if_neg hplaces, hround]

/-! ### Doubles -/

/-- The places of doubles that are counted. -/
def clampPlaces (places : Int) : Int := max (-placesBound) (min placesBound places)

theorem clampPlaces_of_le {places : Int} (h : places.natAbs ≤ 400) :
    clampPlaces places = places := by
  unfold clampPlaces placesBound
  omega

/-- The multiple of `10 ^ (-places)` nearest to a magnitude, as a number of such
steps. -/
def Magnitude.multiple (m : Magnitude) (places : Int) : Nat :=
  divNearest (m.quanta * 10 ^ places.toNat) (Binary64.unit * 10 ^ (-places).toNat)

theorem Magnitude.decimalLength_whole (m : Magnitude) :
    decimalLength (m.quanta / Binary64.unit) ≤ 309 := by
  have hover : overflowQuanta ≤ 10 ^ 309 * Binary64.unit := by decide +kernel
  apply decimalLength_le (by omega)
  rw [Nat.div_lt_iff_lt_mul Binary64.unit_pos]
  exact Nat.lt_of_lt_of_le m.quanta_lt_overflowQuanta hover

namespace Binary64

/-- **A double is rounded to places by one division of its quanta,** and the multiple
found is rounded once. -/
theorem roundPlaces_finite (places : Int) (negative : Bool) (m : Magnitude) :
    roundPlaces places (.finite negative m) =
      nearest negative (m.multiple (clampPlaces places) * 10 ^ (-clampPlaces places).toNat * unit)
        (10 ^ (clampPlaces places).toNat) := by
  rw [roundPlaces, ← clampPlaces]
  dsimp only
  generalize clampPlaces places = p
  by_cases hp : 0 ≤ p
  · have hneg : (-p).toNat = 0 := by omega
    have htens : (-(p.toNat : Int)).toNat = 0 := by omega
    have hplaces : (- -(p.toNat : Int)).toNat = p.toNat := by omega
    rw [if_pos hp, ofDecimal_eq, Magnitude.toPlaces, decimalRatio, Magnitude.multiple, hneg,
      hplaces, htens]
    simp only [Nat.pow_zero, Nat.mul_one]
  · have hneg : (-p).toNat = p.natAbs := by omega
    have htens : p.toNat = 0 := by omega
    have hlen := m.decimalLength_whole
    rw [if_neg hp, roundMagnitude_div unit_pos (by omega) (by omega), Magnitude.multiple, hneg,
      htens]
    simp only [Nat.pow_zero, Nat.mul_one]

/-- No double tells places past a word from the word nearest to them. -/
theorem roundPlaces_saturate (places : Int) (x : Binary64) :
    x.roundPlaces (Word.saturate places).val = x.roundPlaces places := by
  have hclamp : max (-placesBound) (min placesBound (Word.saturate places).val) =
      max (-placesBound) (min placesBound places) := by
    unfold Word.saturate placesBound
    dsimp only
    omega
  cases x with
  | nan => rfl
  | infinite negative => rfl
  | finite negative m => rw [roundPlaces, roundPlaces, hclamp]

end Binary64

end RegisterMachine
