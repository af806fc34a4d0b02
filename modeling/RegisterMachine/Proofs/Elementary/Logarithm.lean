/-
# The size of logarithms

The double settled for a real number is no farther from zero than a double that
bounds all the intervals, so the logarithms of doubles stay below `2 ^ 28`: far
above what they are, and far below the overflow. The logarithm of an unbounded
integer adds the logarithms of two for the places that were cut off, and it is
finite exactly when the number of these places is a finite double.

Key definitions: `Binary64.AtMost`.
Key theorems: `atMost_nearestReal`, `Binary64.atMost_log`,
`Binary64.atMost_log10`, `isFinite_logarithm_iff`.
-/
import RegisterMachine.Operation.Real
import RegisterMachine.Proofs.Binary64.Overflow
import RegisterMachine.Proofs.Elementary.Interval
import RegisterMachine.Proofs.Json.Float

namespace RegisterMachine

/-! ### Bounded doubles -/

namespace Binary64

/-- The double is finite, and at most so many quanta from zero. -/
def AtMost (bound : Nat) (x : Binary64) : Prop :=
  ∃ negative m, x = .finite negative m ∧ m.quanta ≤ bound

/-- What is not above a double is not rounded above it. -/
theorem nearestOrdinal_le_ordinal {n d : Nat} (hd : 0 < d) {b : Magnitude}
    (h : n ≤ b.quanta * d) : nearestOrdinal n d ≤ b.ordinal := by
  rw [← nearestOrdinal_quanta b Nat.one_pos]
  apply nearestOrdinal_mono hd Nat.one_pos
  rw [Nat.mul_one, Nat.mul_one]
  exact h

theorem ordinal_le_iff_quanta_le {a b : Magnitude} :
    a.ordinal ≤ b.ordinal ↔ a.quanta ≤ b.quanta := by
  rw [a.quanta_eq, b.quanta_eq]
  exact ordinalQuanta_strictMono.le_iff_le.symm

theorem atMost_nearest (negative : Bool) {n d : Nat} (hd : 0 < d) {b : Magnitude}
    (h : n ≤ b.quanta * d) : (nearest negative n d).AtMost b.quanta := by
  have hle := nearestOrdinal_le_ordinal hd h
  have hlt := Nat.lt_of_le_of_lt hle b.ordinal_lt
  refine ⟨negative, ⟨nearestOrdinal n d, hlt⟩, dif_pos hlt, ?_⟩
  exact ordinal_le_iff_quanta_le.1 hle

theorem atMost_nearestFinite (negative : Bool) {n d : Nat} (hd : 0 < d) {b : Magnitude}
    (h : n ≤ b.quanta * d) : (nearestFinite negative n d).AtMost b.quanta := by
  have hle := nearestOrdinal_le_ordinal hd h
  refine ⟨negative, _, rfl, ordinal_le_iff_quanta_le.1 ?_⟩
  exact Nat.le_trans (Nat.min_le_left _ _) hle

theorem isFinite_add_of_atMost {x y : Binary64} {a b : Nat} (hx : x.AtMost a) (hy : y.AtMost b)
    (h : a + b < overflowQuanta) : (x.add y).isFinite = true := by
  obtain ⟨s, m, rfl, hm⟩ := hx
  obtain ⟨t, n, rfl, hn⟩ := hy
  have habs := Int.natAbs_add_le (exact (.finite s m)) (exact (.finite t n))
  rw [natAbs_exact, natAbs_exact] at habs
  rw [isFinite_add_iff rfl rfl]
  omega

end Binary64

/-! ### Settled values -/

/-- What is settled is the lower end of one of the intervals, or zero. -/
theorem settle_eq (enclose : (p : Nat) → Option (Interval p)) (fuel p : Nat) :
    ∃ q z, p ≤ q ∧ q ≤ 2 ^ fuel * p ∧ settle enclose fuel p = nearestDyadic z q ∧
      (z = 0 ∨ ∃ a : Interval q, enclose q = some a ∧ a.lo = z) := by
  induction fuel generalizing p with
  | zero =>
    rw [settle]
    cases h : enclose p with
    | none => exact ⟨p, 0, Nat.le_refl p, by omega, rfl, .inl rfl⟩
    | some a => exact ⟨p, a.lo, Nat.le_refl p, by omega, rfl, .inr ⟨a, h, rfl⟩⟩
  | succ fuel ih =>
    have hpow : 2 ^ (fuel + 1) * p = 2 ^ fuel * (2 * p) := by ring
    obtain ⟨q, z, hq, hq', hz⟩ := ih (2 * p)
    rw [settle]
    cases h : enclose p with
    | none => exact ⟨q, z, by omega, by omega, hz⟩
    | some a =>
      dsimp only
      split
      · have hpos : p ≤ 2 ^ (fuel + 1) * p := Nat.le_mul_of_pos_left p (Nat.two_pow_pos _)
        exact ⟨p, a.lo, Nat.le_refl p, hpos, rfl, .inr ⟨a, h, rfl⟩⟩
      · exact ⟨q, z, by omega, by omega, hz⟩

/-- A real number is rounded to at most a double that bounds the intervals. -/
theorem atMost_nearestReal {enclose : (p : Nat) → Option (Interval p)} {b : Nat} {m : Magnitude}
    (hm : m.quanta = b * Binary64.unit)
    (h : ∀ (p : Nat) (a : Interval p), 128 ≤ p → p ≤ 8192 → enclose p = some a →
      a.lo.natAbs ≤ b * 2 ^ p) : (nearestReal enclose).AtMost m.quanta := by
  obtain ⟨q, z, hq, hq', hz, hlo⟩ := settle_eq enclose 6 128
  have hbound : z.natAbs ≤ b * 2 ^ q := by
    rcases hlo with rfl | ⟨a, ha, rfl⟩
    · simp
    · exact h q a hq (by omega) ha
  unfold nearestReal
  rw [hz, nearestDyadic]
  refine Binary64.atMost_nearestFinite _ (Nat.two_pow_pos q) ?_
  calc z.natAbs * Binary64.unit
      ≤ b * 2 ^ q * Binary64.unit := Nat.mul_le_mul_right _ hbound
    _ = m.quanta * 2 ^ q := by rw [hm]; ring

/-! ### Logarithms of doubles -/

theorem Magnitude.log2_quanta_lt (m : Magnitude) : m.quanta.log2 < 2098 := by
  have hplace := m.place_lt
  have hlog := m.log2_quanta
  omega

theorem Magnitude.quanta_pos {m : Magnitude} (hm : m.ordinal ≠ 0) : 0 < m.quanta := by
  rw [m.quanta_eq, ← ordinalQuanta_zero]
  exact ordinalQuanta_strictMono (Nat.pos_of_ne_zero hm)

namespace Binary64

/-- A bound of both logarithms of positive doubles, in quanta. -/
def logarithmBound : Nat := 2 ^ 28 * unit

theorem atMost_logWith {enclose : Nat → (p : Nat) → Option (Interval p)} {m : Magnitude}
    (hm : m.ordinal ≠ 0)
    (h : ∀ (p : Nat) (a : Interval p), 128 ≤ p → p ≤ 8192 → enclose m.quanta p = some a →
      a.lo.natAbs ≤ 2 ^ 28 * 2 ^ p) :
    (logWith enclose (.finite false m)).AtMost logarithmBound := by
  obtain ⟨b, -, hb⟩ := exists_ofInt_eq (show 2 ^ 28 ≤ 2 ^ 53 by decide)
  simp only [logWith, if_neg hm, Bool.false_eq_true, if_false]
  split
  · refine ⟨false, .zero, rfl, ?_⟩
    exact Nat.zero_le _
  · rw [logarithmBound, ← hb]
    exact atMost_nearestReal hb h

theorem natAbs_le_of_bounds {z : Int} {p : Nat} (hp : p ≤ 8192)
    (hlow : -(8 * (2150 * ((p + 2) * Interval.one p))) ≤ z)
    (hhigh : z ≤ 8 * (2150 * ((p + 2) * Interval.one p))) : z.natAbs ≤ 2 ^ 28 * 2 ^ p := by
  unfold Interval.one at hlow hhigh
  generalize 2 ^ p = w at *
  have hle : (p + 2) * w ≤ 8194 * w := Nat.mul_le_mul_right w (by omega)
  have hcast : (((p + 2) * w : Nat) : Int) = (p + 2) * (w : Int) := by push_cast; rfl
  rw [← hcast] at hlow hhigh
  omega

theorem atMost_log {m : Magnitude} (hm : m.ordinal ≠ 0) :
    (log (.finite false m)).AtMost logarithmBound := by
  refine atMost_logWith hm fun p a _ hp ha => ?_
  have hwithin := Interval.within_log (Magnitude.quanta_pos hm) m.log2_quanta_lt p
  obtain rfl := Option.some.inj ha
  have hnonneg := hwithin.nonneg
  have hlow := hwithin.neg_le_lo
  have hhigh := hwithin.lo_le
  exact natAbs_le_of_bounds hp (by omega) (by omega)

theorem atMost_log10 {m : Magnitude} (hm : m.ordinal ≠ 0) :
    (log10 (.finite false m)).AtMost logarithmBound := by
  refine atMost_logWith hm fun p a hp hp' ha => ?_
  obtain ⟨hlow, hhigh⟩ := Interval.log10?_lo_bounds (Magnitude.quanta_pos hm)
    m.log2_quanta_lt (by omega) ha
  exact natAbs_le_of_bounds hp' hlow hhigh

end Binary64

/-! ### Logarithms of unbounded integers -/

theorem exists_leadingBits_eq {n : Int} (hn : 0 < n) :
    ∃ k : Nat, leadingBits n = k ∧ 0 < k ∧ k < 2 ^ 53 := by
  obtain ⟨k, rfl⟩ := Int.eq_ofNat_of_zero_le (Int.le_of_lt hn)
  have hk : k ≠ 0 := by omega
  have hlow := Nat.log2_self_le hk
  have hhigh := Nat.lt_log2_self (n := k)
  refine ⟨k / 2 ^ (k.log2 - 52), ?_, ?_, ?_⟩
  · rw [leadingBits, cutPlaces, Int.natAbs_natCast]
    norm_cast
  · refine Nat.div_pos (Nat.le_trans ?_ hlow) (Nat.two_pow_pos _)
    exact Nat.pow_le_pow_right (by omega) (by omega)
  · rw [Nat.div_lt_iff_lt_mul (Nat.two_pow_pos _), ← Nat.pow_add]
    exact Nat.lt_of_lt_of_le hhigh (Nat.pow_le_pow_right (by omega) (by omega))

/-- The magnitude `3 * 2 ^ 1022`, above all products of a double and a number up
to three quarters. -/
def threeQuarters : Magnitude := ⟨0x7fe8000000000000, by decide⟩

theorem quanta_threeQuarters : threeQuarters.quanta = 3 * 2 ^ 2096 := by decide +kernel

theorem threeQuarters_add_lt :
    Binary64.logarithmBound + 3 * 2 ^ 2096 < overflowQuanta := by decide +kernel

/-- Three quarters of a double, or less, are below the overflow by more than a
logarithm. -/
theorem atMost_mul {s t : Bool} {m c : Magnitude} (hc : c.quanta ≤ 3 * 2 ^ 1072) :
    ((Binary64.finite s m).mul (.finite t c)).AtMost (3 * 2 ^ 2096) := by
  rw [Binary64.mul, ← quanta_threeQuarters]
  refine Binary64.atMost_nearest _ Binary64.unit_pos ?_
  have hm : m.quanta ≤ 2 ^ 53 * 2 ^ 2045 := by
    apply Nat.mul_le_mul (Nat.le_of_lt m.mantissa_lt)
    have hplace := m.place_lt
    exact Nat.pow_le_pow_right (by omega) (by omega)
  calc m.quanta * c.quanta
      ≤ 2 ^ 53 * 2 ^ 2045 * (3 * 2 ^ 1072) := Nat.mul_le_mul hm hc
    _ = threeQuarters.quanta * Binary64.unit := by decide +kernel

section Unbounded

variable {f : Binary64 → Binary64} {c : Magnitude} {n : Int}

theorem atMost_leadingBits
    (hf : ∀ m : Magnitude, m.ordinal ≠ 0 → (f (.finite false m)).AtMost Binary64.logarithmBound)
    (hn : 0 < n) : (f (.ofInt (leadingBits n))).AtMost Binary64.logarithmBound := by
  obtain ⟨k, hk, hkpos, hklt⟩ := exists_leadingBits_eq hn
  obtain ⟨m, hm, hq⟩ := Binary64.exists_ofInt_eq (Nat.le_of_lt hklt)
  rw [hk, hm]
  refine hf m fun hzero => ?_
  have hprod := Nat.mul_pos hkpos Binary64.unit_pos
  rw [← hq, m.quanta_eq, hzero, ordinalQuanta_zero] at hprod
  exact Nat.lt_irrefl 0 hprod

/-- The logarithms of two for the places cut off are past the doubles with the
number of the places. -/
theorem mul_logTwo_cases (hc : c.quanta ≤ 3 * 2 ^ 1072) (hpos : c.ordinal ≠ 0) (k : Nat) :
    (k < integerOverflow ∧ ((Binary64.ofInt k).mul (.finite false c)).AtMost (3 * 2 ^ 2096)) ∨
      (integerOverflow ≤ k ∧ (Binary64.ofInt k).mul (.finite false c) = .infinite false) := by
  have hcut := Binary64.isFinite_ofInt_iff k
  rw [Int.natAbs_natCast, Binary64.ofInt_natCast] at hcut
  rw [Binary64.ofInt_natCast]
  unfold Binary64.nearest at hcut ⊢
  split
  · rename_i hlt
    rw [dif_pos hlt] at hcut
    exact .inl ⟨hcut.1 rfl, atMost_mul hc⟩
  · rename_i hge
    rw [dif_neg hge] at hcut
    refine .inr ⟨Nat.not_lt.1 fun hlt => Bool.false_ne_true (hcut.2 hlt), ?_⟩
    rw [Binary64.mul, if_neg hpos]
    rfl

/-- **The logarithm of a positive unbounded integer is finite exactly when the
number of places cut off is a finite double.** -/
theorem isFinite_logarithm_iff
    (hf : ∀ m : Magnitude, m.ordinal ≠ 0 → (f (.finite false m)).AtMost Binary64.logarithmBound)
    (hc : c.quanta ≤ 3 * 2 ^ 1072) (hpos : c.ordinal ≠ 0) (hn : 0 < n) :
    ((f (.ofInt (leadingBits n))).add
        ((Binary64.ofInt (cutPlaces n)).mul (.finite false c))).isFinite = true ↔
      cutPlaces n < integerOverflow := by
  have hlog := atMost_leadingBits hf hn
  rcases mul_logTwo_cases hc hpos (cutPlaces n) with ⟨hlt, hmul⟩ | ⟨hge, hmul⟩
  · refine iff_of_true ?_ hlt
    exact Binary64.isFinite_add_of_atMost hlog hmul threeQuarters_add_lt
  · obtain ⟨s, m, hm, -⟩ := hlog
    rw [hmul, hm]
    exact iff_of_false Bool.false_ne_true (Nat.not_lt.2 hge)

/-- Past the doubles, the logarithm is an infinity and no NaN. -/
theorem isNaN_logarithm
    (hf : ∀ m : Magnitude, m.ordinal ≠ 0 → (f (.finite false m)).AtMost Binary64.logarithmBound)
    (hc : c.quanta ≤ 3 * 2 ^ 1072) (hpos : c.ordinal ≠ 0) (hn : 0 < n) :
    ((f (.ofInt (leadingBits n))).add
        ((Binary64.ofInt (cutPlaces n)).mul (.finite false c))).isNaN = false := by
  obtain ⟨s, m, hm, -⟩ := atMost_leadingBits hf hn
  rw [hm]
  refine Binary64.isNaN_add rfl ?_
  rcases mul_logTwo_cases hc hpos (cutPlaces n) with ⟨-, t, q, hq, -⟩ | ⟨-, hmul⟩
  · rw [hq]
    rfl
  · rw [hmul]
    rfl

end Unbounded

/-- The two constants are doubles below three quarters. -/
theorem logTwo_eq : ∃ c : Magnitude, logTwo = .finite false c ∧ c.quanta ≤ 3 * 2 ^ 1072 ∧
    c.ordinal ≠ 0 :=
  ⟨⟨0x3fe62e42fefa39ef, by decide⟩, by decide +kernel, by decide +kernel, by decide⟩

theorem logTenOfTwo_eq : ∃ c : Magnitude, logTenOfTwo = .finite false c ∧
    c.quanta ≤ 3 * 2 ^ 1072 ∧ c.ordinal ≠ 0 :=
  ⟨⟨0x3fd34413509f79ff, by decide⟩, by decide +kernel, by decide +kernel, by decide⟩

end RegisterMachine
