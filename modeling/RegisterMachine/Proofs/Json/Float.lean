/-
# Doubles that are written and read

A double is written as the decimal that is rounded to it, and what is read is
the product or the quotient of two doubles, the one nearest to the digits and
the one nearest to the power of ten (`Binary64.reread?`). That is defined for
every finite double: the two roundings add less than the two last places by
which all but the two greatest doubles are away from the end of the range, and
for these two it is computed. The double nearest to the text is the one that was
written (`Binary64.nearestToText_eq`). What is read is that double where digits
and power of ten are doubles themselves (`Binary64.WrittenExactly`), and in
general it may be a neighbour.

Key definitions: `Binary64.reread?`, `Binary64.nearestToText`,
`Binary64.WrittenExactly`.
Key theorems: `Binary64.nearestToText_eq`, `Json.toFloat?_ofFloat`,
`Binary64.product_lt_overflow`,
`Binary64.isSome_reread?_iff`, `Binary64.WrittenExactly.reread?_eq`.
-/
import RegisterMachine.Proofs.Decimal.Shortest
import RegisterMachine.Proofs.Json.Number

namespace RegisterMachine

/-! ### Reading what was written -/

theorem Decimal.pads_written (d : Decimal) : d.written.Pads d := by
  unfold Decimal.written
  split
  · rename_i h
    refine ⟨d.exponent.toNat + 1, rfl, ?_⟩
    dsimp only
    omega
  · exact .refl d

namespace Magnitude

theorem coefficient_shortest_le (m : Magnitude) : (m.shortest .even).coefficient ≤ 10 ^ 17 := by
  by_cases h : m.ordinal = 0
  · rw [shortest, if_pos h]
    exact Nat.zero_le _
  · exact (shortest_spec .even h).2.2

theorem written_of_zero {m : Magnitude} (h : m.ordinal = 0) : m.written = ⟨0, -1⟩ := by
  rw [written, shortest, if_pos h]
  decide

theorem ordinal_written (m : Magnitude) : m.written.ordinal = m.ordinal := by
  by_cases h : m.ordinal = 0
  · rw [written_of_zero h, h, Decimal.ordinal, Binary64.decimalRatio]
    simp
  · exact (m.shortest .even).pads_written.ordinal_eq.trans (shortest_spec .even h).1

theorem coefficient_written_ne_zero {m : Magnitude} (h : m.ordinal ≠ 0) :
    m.written.coefficient ≠ 0 := by
  intro h0
  have hle := (m.shortest .even).pads_written.coefficient_le
  have hw : (m.shortest .even).written.coefficient = 0 := h0
  have hne := (shortest_spec .even h).2.1
  omega

end Magnitude

namespace Binary64

/-- The double that the text of a double is read into. -/
def reread? : Binary64 → Option Binary64
  | .finite negative m =>
    ((ofInt m.written.coefficient).timesPowerOfTen? m.written.exponent).map (withSign negative)
  | _ => none

/-- The double nearest to the decimal that is written of a finite double. -/
def nearestToText : Binary64 → Binary64
  | .finite negative m =>
    nearest negative (decimalRatio m.written).1 (decimalRatio m.written).2
  | x => x

theorem nearest_of_ordinal (negative : Bool) {n d : Nat} {m : Magnitude}
    (h : nearestOrdinal n d = m.ordinal) : nearest negative n d = .finite negative m := by
  rw [nearest, dif_pos (h ▸ m.ordinal_lt)]
  cases m
  simp_all

/-- **The digits of a double tell it from all others.** -/
theorem nearestToText_eq (x : Binary64) : x.nearestToText = x := by
  match x with
  | .nan => rfl
  | .infinite _ => rfl
  | .finite negative m => exact nearest_of_ordinal negative m.ordinal_written

end Binary64

namespace Json

theorem wellFormed_ofFloat (x : Binary64) : (ofFloat x).WellFormed := by
  cases x with
  | nan => trivial
  | infinite s => trivial
  | finite s m =>
    obtain ⟨n, tail, hn, -⟩ := spells_magnitudeText m fun h =>
      (Magnitude.shortest_spec .even h).2.1
    rw [ofFloat, WellFormed]
    exact ⟨hn.isNumber_eq s, hn.chars s⟩

/-- **A double is read from its text in two roundings,** of its digits and of the
power of ten, and one more for their product or quotient. -/
theorem toFloat?_ofFloat (x : Binary64) : (ofFloat x).toFloat? = x.reread? := by
  cases x with
  | nan => rfl
  | infinite s => rfl
  | finite s m =>
    obtain ⟨n, tail, hn, hvalue⟩ := spells_magnitudeText m fun h =>
      (Magnitude.shortest_spec .even h).2.1
    have hlt : n.value.coefficient < gatherBound := by
      rw [hvalue]
      exact Decimal.coefficient_written_lt m.coefficient_shortest_le
    have hgathered : n.gathered = m.written := (Numeral.gathered_of_lt hlt).trans hvalue
    simp only [ofFloat, toFloat?, hn.splitSign_eq, hn.read?_eq, Option.bind_some,
      Numeral.toBinary64?, hgathered, Binary64.reread?]

end Json

/-! ### Reading stays in range -/

namespace Binary64

/-- The double of a positive integer, before it is known to be finite. -/
theorem nearest_one_eq {n : Nat} (h : n < overflowQuanta) :
    ∃ m : Magnitude, nearest false n 1 = .finite false m ∧ m.ordinal = nearestOrdinal n 1 := by
  have hlt := (nearestOrdinal_lt_bound_iff n Nat.one_pos).2 (by omega)
  exact ⟨⟨_, hlt⟩, by rw [nearest, dif_pos hlt], rfl⟩

theorem ofInt_natCast (c : Nat) : ofInt c = nearest false (c * unit) 1 := by
  have hsign : decide ((c : Int) < 0) = false := by simp
  rw [ofInt, hsign, Int.natAbs_natCast]

theorem powerOfTen_eq {k : Nat} (h : k ≤ greatestPowerOfTen) :
    powerOfTen k = nearest false (10 ^ k * unit) 1 := by
  have hlen : decimalLength 1 = 1 := by decide
  have hk : (-(k : Int)).toNat = 0 := by omega
  unfold greatestPowerOfTen at h
  rw [powerOfTen, ofDecimal]
  dsimp only
  rw [hlen, if_neg (by omega), if_neg (by omega), decimalRatio]
  simp only [Int.toNat_natCast, hk, Nat.one_mul, Nat.pow_zero]

/-- A decimal that is rounded two places below the greatest magnitude or deeper
stays in range when its digits and its power of ten are rounded apart: the two
roundings add a part in `2 ^ 52`, and two places are more. -/
theorem product_lt_overflow {c k : Nat} (hc : 0 < c)
    (h : nearestOrdinal (c * 10 ^ k * unit) 1 ≤ ordinalBound - 3) :
    ordinalQuanta (nearestOrdinal (c * unit) 1) *
      ordinalQuanta (nearestOrdinal (10 ^ k * unit) 1) < overflowQuanta * unit := by
  have hunit : 2 ^ 53 ≤ unit := by decide +kernel
  have hgap : (2 ^ 53 + 1) * (2 ^ 53 + 1) * midpoint (ordinalBound - 3) <
      2 * 2 ^ 53 * 2 ^ 53 * overflowQuanta := by decide +kernel
  have hvalue : 2 * (c * 10 ^ k * unit) ≤ midpoint (ordinalBound - 3) := by
    rw [nearestOrdinal_le_iff _ Nat.one_pos, BelowMidpoint] at h
    omega
  have hpow : 0 < 10 ^ k := by positivity
  have hdigits := quanta_nearestOrdinal_le (n := c * unit) Nat.one_pos
    (by rw [Nat.mul_one]; exact Nat.le_trans hunit (Nat.le_mul_of_pos_left _ hc))
  have htens := quanta_nearestOrdinal_le (n := 10 ^ k * unit) Nat.one_pos
    (by rw [Nat.mul_one]; exact Nat.le_trans hunit (Nat.le_mul_of_pos_left _ hpow))
  rw [Nat.one_mul] at hdigits htens
  generalize ordinalQuanta (nearestOrdinal (c * unit) 1) = a at *
  generalize ordinalQuanta (nearestOrdinal (10 ^ k * unit) 1) = b at *
  apply Nat.lt_of_mul_lt_mul_left (a := 2 * 2 ^ 53 * 2 ^ 53)
  calc 2 * 2 ^ 53 * 2 ^ 53 * (a * b)
      = 2 * ((2 ^ 53 * a) * (2 ^ 53 * b)) := by ring
    _ ≤ 2 * (((2 ^ 53 + 1) * (c * unit)) * ((2 ^ 53 + 1) * (10 ^ k * unit))) := by gcongr
    _ = (2 ^ 53 + 1) * (2 ^ 53 + 1) * (2 * (c * 10 ^ k * unit)) * unit := by ring
    _ ≤ (2 ^ 53 + 1) * (2 ^ 53 + 1) * midpoint (ordinalBound - 3) * unit := by gcongr
    _ < 2 * 2 ^ 53 * 2 ^ 53 * overflowQuanta * unit := Nat.mul_lt_mul_of_pos_right hgap unit_pos
    _ = 2 * 2 ^ 53 * 2 ^ 53 * (overflowQuanta * unit) := by ring

theorem ten_pow_lt_overflow {k : Nat} (hk : k ≤ greatestPowerOfTen) :
    10 ^ k * unit < overflowQuanta := by
  have hgreatest : 10 ^ greatestPowerOfTen * unit < overflowQuanta := by decide +kernel
  refine Nat.lt_of_le_of_lt (Nat.mul_le_mul_right _ ?_) hgreatest
  exact Nat.pow_le_pow_right (by omega) hk

theorem isSome_timesPowerOfTen? {c k : Nat} (hc : c * unit < overflowQuanta)
    (hk : k ≤ greatestPowerOfTen)
    (h : ordinalQuanta (nearestOrdinal (c * unit) 1) *
      ordinalQuanta (nearestOrdinal (10 ^ k * unit) 1) < overflowQuanta * unit) :
    ((ofInt c).timesPowerOfTen? k).isSome = true := by
  obtain ⟨a, ha, hao⟩ := nearest_one_eq hc
  obtain ⟨b, hb, hbo⟩ := nearest_one_eq (ten_pow_lt_overflow hk)
  have hfinite : (((ofInt c).mul (powerOfTen k)).isFinite) = true := by
    rw [ofInt_natCast, powerOfTen_eq hk, ha, hb, mul, isFinite_nearest_iff _ _ unit_pos,
      a.quanta_eq, b.quanta_eq, hao, hbo]
    exact h
  have hneg : ¬ (k : Int) < 0 := by omega
  have hle : (k : Int) ≤ greatestPowerOfTen := by omega
  rw [timesPowerOfTen?, if_neg hneg, if_pos hle]
  simp only [Int.toNat_natCast, hfinite, if_true, Option.isSome_some]

/-- The two greatest doubles are read back in range, by computation. -/
theorem isSome_reread?_greatest {m : Magnitude} (h : ordinalBound - 3 < m.ordinal) :
    (reread? (.finite false m)).isSome = true := by
  have hm := m.ordinal_lt
  have hlast : (reread? (.finite false ⟨ordinalBound - 1, by decide⟩)).isSome = true := by
    decide +kernel
  have hsecond : (reread? (.finite false ⟨ordinalBound - 2, by decide⟩)).isSome = true := by
    decide +kernel
  rcases Nat.eq_or_lt_of_le (show ordinalBound - 2 ≤ m.ordinal by omega) with heq | hlt
  · have hmag : m = ⟨ordinalBound - 2, by decide⟩ := by cases m; simp_all
    rw [hmag]; exact hsecond
  · have hmag : m = ⟨ordinalBound - 1, by decide⟩ := by
      cases m
      simp only [Magnitude.mk.injEq]
      dsimp only at hlt hm
      omega
    rw [hmag]; exact hlast

/-- The text of every other double is read in range as well. -/
theorem isSome_timesPowerOfTen?_written {m : Magnitude} (h : ¬ ordinalBound - 3 < m.ordinal) :
    ((ofInt m.written.coefficient).timesPowerOfTen? m.written.exponent).isSome = true := by
  by_cases hexp : m.written.exponent < 0
  · rw [timesPowerOfTen?, if_pos hexp]
    rfl
  · -- only decimals of positive magnitudes have a power of ten without sign
    have hm : m.ordinal ≠ 0 := by
      intro hzero
      rw [Magnitude.written_of_zero hzero] at hexp
      exact hexp (by decide)
    have hord := m.ordinal_written
    have hne := Magnitude.coefficient_written_ne_zero hm
    have hcoeff : m.written.coefficient < gatherBound :=
      Decimal.coefficient_written_lt m.coefficient_shortest_le
    generalize m.written = d at *
    obtain ⟨c, e⟩ := d
    obtain ⟨k, rfl⟩ : ∃ k : Nat, e = k := ⟨e.toNat, by dsimp only at hexp; omega⟩
    dsimp only at *
    have hratio : nearestOrdinal (c * 10 ^ k * unit) 1 = m.ordinal := by
      have hk : (-(k : Int)).toNat = 0 := by omega
      rw [← hord, Decimal.ordinal, decimalRatio]
      simp only [Int.toNat_natCast, hk, Nat.pow_zero]
    have hvalue : c * 10 ^ k * unit < overflowQuanta := by
      have hlt := (nearestOrdinal_lt_bound_iff (c * 10 ^ k * unit) Nat.one_pos).1
        (hratio ▸ m.ordinal_lt)
      omega
    have hc : 0 < c := by omega
    refine isSome_timesPowerOfTen? ?_ ?_ (product_lt_overflow hc (by omega))
    · have hbound : gatherBound * unit < overflowQuanta := by decide +kernel
      exact Nat.lt_of_le_of_lt (Nat.mul_le_mul_right _ (Nat.le_of_lt hcoeff)) hbound
    · refine Nat.le_of_not_lt fun hlt => ?_
      have hbound : overflowQuanta < 10 ^ (greatestPowerOfTen + 1) * unit := by decide +kernel
      have hpow : 10 ^ (greatestPowerOfTen + 1) ≤ c * 10 ^ k :=
        Nat.le_trans (Nat.pow_le_pow_right (by omega) hlt) (Nat.le_mul_of_pos_left _ hc)
      have := Nat.mul_le_mul_right unit hpow
      omega

/-- **A double is read back from its text exactly if it is finite.** -/
theorem isSome_reread?_iff (x : Binary64) : x.reread?.isSome = true ↔ x.isFinite = true := by
  cases x with
  | nan => simp [reread?, isFinite]
  | infinite s => simp [reread?, isFinite]
  | finite s m =>
    refine iff_of_true ?_ rfl
    have hsign : ∀ s, (reread? (.finite s m)).isSome = true ↔
        ((ofInt m.written.coefficient).timesPowerOfTen? m.written.exponent).isSome = true := by
      intro s
      rw [reread?, Option.isSome_map]
    by_cases hgreat : ordinalBound - 3 < m.ordinal
    · rw [hsign, ← hsign false]
      exact isSome_reread?_greatest hgreat
    · rw [hsign]
      exact isSome_timesPowerOfTen?_written hgreat

/-! ### Doubles that come back exactly -/

theorem exists_ofInt_eq {c : Nat} (hc : c ≤ 2 ^ 53) :
    ∃ m : Magnitude, ofInt c = .finite false m ∧ m.quanta = c * unit := by
  obtain ⟨m, hm⟩ := exists_quanta_eq_units hc
  refine ⟨m, ?_, hm⟩
  rw [ofInt_natCast, ← hm, ← Nat.mul_one m.quanta]
  exact nearest_quanta false m Nat.one_pos

theorem exists_powerOfTen_eq {k : Nat} (hk : k ≤ 22) :
    ∃ m : Magnitude, powerOfTen k = .finite false m ∧ m.quanta = 10 ^ k * unit := by
  have hfive : 5 ^ k ≤ 2 ^ 53 :=
    Nat.le_trans (Nat.pow_le_pow_right (by omega) hk) (by decide)
  obtain ⟨m, hm⟩ := exists_quanta_eq hfive hk
  rw [← Nat.mul_pow] at hm
  refine ⟨m, ?_, hm⟩
  rw [powerOfTen_eq (Nat.le_trans hk (by decide)), ← hm, ← Nat.mul_one m.quanta]
  exact nearest_quanta false m Nat.one_pos

/-- The product or quotient of exact factors is rounded once. -/
theorem timesPowerOfTen?_of_exact {m : Magnitude} {d : Decimal} (hord : d.ordinal = m.ordinal)
    (hc : d.coefficient ≤ 2 ^ 53) (he : d.exponent.natAbs ≤ 22) :
    (ofInt d.coefficient).timesPowerOfTen? d.exponent = some (.finite false m) := by
  obtain ⟨c, e⟩ := d
  dsimp only at *
  obtain ⟨a, ha, haq⟩ := exists_ofInt_eq hc
  obtain ⟨b, hb, hbq⟩ := exists_powerOfTen_eq he
  have hpow : 0 < 10 ^ e.natAbs * unit := Nat.mul_pos (by positivity) unit_pos
  rw [Decimal.ordinal, decimalRatio] at hord
  dsimp only at hord
  rw [ha, timesPowerOfTen?]
  split
  · rename_i hneg
    have hzero : e.toNat = 0 := by omega
    have hk : (-e).toNat = e.natAbs := by omega
    have htimes : (e.natAbs - 1) / greatestPowerOfTen = 0 := by
      unfold greatestPowerOfTen
      omega
    have hbne : b.ordinal ≠ 0 := by
      intro h0
      rw [Magnitude.quanta_eq, h0, ordinalQuanta_zero] at hbq
      omega
    rw [hzero, hk, Nat.pow_zero, Nat.mul_one] at hord
    rw [divPowerOfTen, htimes, divGreatest, Nat.zero_mul, Nat.sub_zero, hb, div, if_pos hbne, haq, hbq]
    refine congrArg some (nearest_of_ordinal false ?_)
    rw [← hord]
    exact nearestOrdinal_congr hpow (by positivity) (by ring)
  · rename_i hneg
    have hzero : (-e).toNat = 0 := by omega
    have hk : e.toNat = e.natAbs := by omega
    have hle : e ≤ greatestPowerOfTen := by
      unfold greatestPowerOfTen
      omega
    rw [hzero, hk, Nat.pow_zero] at hord
    have hproduct : (Binary64.finite false a).mul (powerOfTen e.toNat) = .finite false m := by
      rw [hk, hb, mul, haq, hbq]
      apply nearest_of_ordinal false
      rw [← hord]
      exact nearestOrdinal_congr unit_pos Nat.one_pos (by ring)
    rw [if_pos hle, hproduct]
    rfl

/-- The double is written with digits and a power of ten that are doubles themselves. -/
def WrittenExactly : Binary64 → Prop
  | .finite _ m => m.written.coefficient ≤ 2 ^ 53 ∧ m.written.exponent.natAbs ≤ 22
  | _ => False

instance (x : Binary64) : Decidable x.WrittenExactly := by
  cases x <;> unfold WrittenExactly <;> infer_instance

theorem WrittenExactly.isFinite {x : Binary64} (h : x.WrittenExactly) : x.isFinite = true := by
  match x, h with
  | .finite _ _, _ => rfl

/-- **A double that is written exactly comes back.** -/
theorem WrittenExactly.reread?_eq {x : Binary64} (h : x.WrittenExactly) : x.reread? = some x := by
  match x, h with
  | .finite negative m, ⟨hc, he⟩ =>
    rw [reread?, timesPowerOfTen?_of_exact m.ordinal_written hc he, Option.map_some]
    cases negative <;> rfl

end Binary64

end RegisterMachine
