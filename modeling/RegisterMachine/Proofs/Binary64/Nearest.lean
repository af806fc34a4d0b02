/-
# The nearest magnitude

The values of all ordinals, `ordinalQuanta`, continue the magnitudes past the
greatest one and grow by one last place from each to the next. The ordinal
nearest to `n / d` is the one between the midpoints on both its sides, where a
midpoint itself belongs to the even neighbour (`nearestOrdinal_le_iff`); so
rounding is monotone, it overflows from half a last place above the greatest
magnitude on (`nearestOrdinal_lt_bound_iff`), and it adds at most a part in
`2 ^ 53` to a number that fills its mantissa (`quanta_nearestOrdinal_le`).

Key definitions: `ordinalQuanta`, `overflowQuanta`, `integerOverflow`.
Key theorems: `nearestOrdinal_le_iff`, `nearestOrdinal_mono`,
`nearestOrdinal_lt_bound_iff`, `quanta_nearestOrdinal_le`,
`Binary64.isFinite_ofInt_iff`, `Binary64.isFinite_nearestRoot_iff`.
-/
import Mathlib.Tactic.Ring
import Mathlib.Tactic.Linarith
import Mathlib.Order.Monotone.Basic
import RegisterMachine.Binary64.Nearest

namespace RegisterMachine

/-! ### The values of the ordinals -/

/-- The last place of an ordinal. -/
def ordinalPlace (k : Nat) : Nat := k / 2 ^ 52 - 1

/-- The value of an ordinal, in quanta. -/
def ordinalQuanta (k : Nat) : Nat := (k - ordinalPlace k * 2 ^ 52) * 2 ^ ordinalPlace k

theorem Magnitude.quanta_eq (m : Magnitude) : m.quanta = ordinalQuanta m.ordinal := rfl

/-- The value is mantissa times last place, also for the mantissa `2 ^ 53` that
carries into the next place. -/
theorem ordinalQuanta_place {p j : Nat} (hlow : p = 0 ∨ 2 ^ 52 ≤ j) (hj : j ≤ 2 ^ 53) :
    ordinalQuanta (p * 2 ^ 52 + j) = j * 2 ^ p := by
  rcases Nat.eq_or_lt_of_le hj with rfl | hlt
  · have hp : ordinalPlace (p * 2 ^ 52 + 2 ^ 53) = p + 1 := by unfold ordinalPlace; omega
    have hm : p * 2 ^ 52 + 2 ^ 53 - (p + 1) * 2 ^ 52 = 2 ^ 52 := by omega
    rw [ordinalQuanta, hp, hm]
    ring
  · have hp : ordinalPlace (p * 2 ^ 52 + j) = p := by unfold ordinalPlace; omega
    rw [ordinalQuanta, hp, Nat.add_sub_cancel_left]

/-- From one value to the next it is one last place. -/
theorem ordinalQuanta_succ (k : Nat) :
    ordinalQuanta (k + 1) = ordinalQuanta k + 2 ^ ordinalPlace k := by
  have hk : k = ordinalPlace k * 2 ^ 52 + (k - ordinalPlace k * 2 ^ 52) := by
    unfold ordinalPlace; omega
  have hlow : ordinalPlace k = 0 ∨ 2 ^ 52 ≤ k - ordinalPlace k * 2 ^ 52 := by
    unfold ordinalPlace; omega
  have hj : k - ordinalPlace k * 2 ^ 52 + 1 ≤ 2 ^ 53 := by unfold ordinalPlace; omega
  have hsucc : k + 1 = ordinalPlace k * 2 ^ 52 + (k - ordinalPlace k * 2 ^ 52 + 1) := by omega
  rw [hsucc, ordinalQuanta_place (hlow.imp id fun h => by omega) hj, Nat.add_mul, Nat.one_mul]
  rfl

theorem ordinalQuanta_strictMono : StrictMono ordinalQuanta :=
  strictMono_nat_of_lt_succ fun k => by
    rw [ordinalQuanta_succ]
    exact Nat.lt_add_of_pos_right (Nat.two_pow_pos _)

@[simp]
theorem ordinalQuanta_zero : ordinalQuanta 0 = 0 := by simp [ordinalQuanta]

theorem le_ordinalQuanta {k : Nat} (hk : 2 ^ 52 ≤ k) :
    2 ^ 52 * 2 ^ ordinalPlace k ≤ ordinalQuanta k := by
  apply Nat.mul_le_mul_right _
  unfold ordinalPlace
  omega

theorem ordinalQuanta_lt (k : Nat) : ordinalQuanta k < 2 ^ 53 * 2 ^ ordinalPlace k := by
  refine Nat.mul_lt_mul_of_pos_right ?_ (Nat.two_pow_pos _)
  unfold ordinalPlace
  omega

/-! ### Midpoints -/

/-- Twice the midpoint between an ordinal's value and the next one's. -/
def midpoint (k : Nat) : Nat := ordinalQuanta k + ordinalQuanta (k + 1)

theorem midpoint_strictMono : StrictMono midpoint := fun a b h => by
  have h1 := ordinalQuanta_strictMono h
  have h2 := ordinalQuanta_strictMono (Nat.add_lt_add_right h 1)
  unfold midpoint
  omega

/-- `2 n / d` is below the midpoint, or on it and the ordinal takes it. -/
def BelowMidpoint (n d k : Nat) : Prop :=
  2 * n < d * midpoint k ∨ (2 * n = d * midpoint k ∧ k % 2 = 0)

/-- The last place, the mantissa before rounding and the bounds that they keep. -/
theorem mantissa_bounds (n d : Nat) :
    n / (d * 2 ^ ((n / d).log2 - 52)) < 2 ^ 53 ∧
      ((n / d).log2 - 52 = 0 ∨ 2 ^ 52 ≤ n / (d * 2 ^ ((n / d).log2 - 52))) := by
  rw [← Nat.div_div_eq_div_mul]
  generalize n / d = q
  constructor
  · rw [Nat.div_lt_iff_lt_mul (Nat.two_pow_pos _), ← Nat.pow_add]
    by_cases hq : q = 0
    · rw [hq]; exact Nat.two_pow_pos _
    · exact (Nat.log2_lt hq).1 (by omega)
  · by_cases hp : q.log2 - 52 = 0
    · exact .inl hp
    · have hq : q ≠ 0 := by rintro rfl; simp at hp
      rw [Nat.le_div_iff_mul_le (Nat.two_pow_pos _), ← Nat.pow_add]
      exact .inr ((Nat.le_log2 hq).1 (by omega))

theorem divNearest_even_of_tie {n d : Nat} (hd : 0 < d)
    (h : 2 * n = d * (2 * divNearest n d + 1) ∨ 2 * n + d = d * (2 * divNearest n d)) :
    divNearest n d % 2 = 0 := by
  have hdm := Nat.div_add_mod n d
  have hmod := Nat.mod_lt n hd
  unfold divNearest at *
  split at h
  · rename_i hc
    rw [if_pos hc]
    have e1 : d * (2 * (n / d + 1) + 1) = 2 * (d * (n / d)) + 3 * d := by ring
    have e2 : d * (2 * (n / d + 1)) = 2 * (d * (n / d)) + 2 * d := by ring
    omega
  · rename_i hc
    rw [if_neg hc]
    have e1 : d * (2 * (n / d) + 1) = 2 * (d * (n / d)) + d := by ring
    have e2 : d * (2 * (n / d)) = 2 * (d * (n / d)) := by ring
    omega

/-- The number is not above the upper midpoint of its nearest ordinal. -/
theorem belowMidpoint_nearestOrdinal (n : Nat) {d : Nat} (hd : 0 < d) :
    BelowMidpoint n d (nearestOrdinal n d) := by
  have hbounds := mantissa_bounds n d
  unfold nearestOrdinal
  dsimp only
  generalize (n / d).log2 - 52 = p at *
  have hD : 0 < d * 2 ^ p := Nat.mul_pos hd (Nat.two_pow_pos p)
  have hlo := div_le_divNearest n (d * 2 ^ p)
  have hhi := divNearest_le_div_add_one n (d * 2 ^ p)
  have hle := le_divNearest n hD
  have htie := divNearest_even_of_tie (n := n) hD
  generalize divNearest n (d * 2 ^ p) = N at *
  have hlow : p = 0 ∨ 2 ^ 52 ≤ N := hbounds.2.imp id fun h => Nat.le_trans h hlo
  have hN : N ≤ 2 ^ 53 := by omega
  have hq := ordinalQuanta_place hlow hN
  unfold BelowMidpoint midpoint
  rcases Nat.eq_or_lt_of_le hN with rfl | hlt
  · -- the mantissa carried: the gap above is twice as wide
    left
    have hplace : ordinalPlace (p * 2 ^ 52 + 2 ^ 53) = p + 1 := by unfold ordinalPlace; omega
    have hsucc := ordinalQuanta_succ (p * 2 ^ 52 + 2 ^ 53)
    rw [hsucc, hq, hplace]
    have e : d * (2 ^ 53 * 2 ^ p + (2 ^ 53 * 2 ^ p + 2 ^ (p + 1))) =
        2 * (2 ^ 53 * (d * 2 ^ p)) + 2 * (d * 2 ^ p) := by ring
    omega
  · have hq' : ordinalQuanta (p * 2 ^ 52 + N + 1) = (N + 1) * 2 ^ p := by
      rw [Nat.add_assoc]
      exact ordinalQuanta_place (hlow.imp id fun h => by omega) (by omega)
    rw [hq, hq']
    have e : d * (N * 2 ^ p + (N + 1) * 2 ^ p) = d * 2 ^ p * (2 * N + 1) := by ring
    have e' : d * 2 ^ p * (2 * N + 1) = 2 * (N * (d * 2 ^ p)) + d * 2 ^ p := by ring
    rw [e]
    rcases Nat.lt_or_ge (2 * n) (d * 2 ^ p * (2 * N + 1)) with h | h
    · exact .inl h
    · refine .inr ⟨by omega, ?_⟩
      have := htie (.inl (by omega))
      omega

/-- The number is above the lower midpoint of its nearest ordinal, or on it and
the ordinal takes it. -/
theorem not_belowMidpoint_of_lt_nearestOrdinal (n : Nat) {d k : Nat} (hd : 0 < d)
    (hk : k + 1 = nearestOrdinal n d) : ¬ BelowMidpoint n d k := by
  have hbounds := mantissa_bounds n d
  unfold nearestOrdinal at hk
  dsimp only at hk
  generalize hpe : (n / d).log2 - 52 = p at *
  have hD : 0 < d * 2 ^ p := Nat.mul_pos hd (Nat.two_pow_pos p)
  have hlo := div_le_divNearest n (d * 2 ^ p)
  have hhi := divNearest_le_div_add_one n (d * 2 ^ p)
  have hle := divNearest_le n (d * 2 ^ p)
  have htie := divNearest_even_of_tie (n := n) hD
  have hfloor := Nat.div_mul_le_self n (d * 2 ^ p)
  generalize divNearest n (d * 2 ^ p) = N at *
  have hlow : p = 0 ∨ 2 ^ 52 ≤ N := hbounds.2.imp id fun h => Nat.le_trans h hlo
  have hN : N ≤ 2 ^ 53 := by omega
  have hq := ordinalQuanta_place hlow hN
  rw [← hk] at hq
  unfold BelowMidpoint midpoint
  by_cases hc : p = 0 ∨ 2 ^ 52 < N
  · -- the neighbour below has the same last place
    have hN0 : 1 ≤ N := by omega
    have hk' : k = p * 2 ^ 52 + (N - 1) := by omega
    have hq' : ordinalQuanta k = (N - 1) * 2 ^ p := by
      rw [hk']
      exact ordinalQuanta_place (hc.imp id fun h => by omega) (by omega)
    rw [hq, hq']
    obtain ⟨M, rfl⟩ : ∃ M, N = M + 1 := ⟨N - 1, by omega⟩
    rw [Nat.add_sub_cancel]
    have e : d * (M * 2 ^ p + (M + 1) * 2 ^ p) + d * 2 ^ p = d * 2 ^ p * (2 * (M + 1)) := by ring
    have e' : (M + 1) * (d * 2 ^ p) * 2 = d * 2 ^ p * (2 * (M + 1)) := by ring
    intro h'
    rcases h' with h | ⟨h, heven⟩
    · omega
    · have := htie (.inr (by omega))
      omega
  · -- a full mantissa at its least: the number is not below the value itself
    have hNe : N = 2 ^ 52 := by omega
    have hstrict := ordinalQuanta_strictMono (Nat.lt_succ_self k)
    rw [Nat.succ_eq_add_one, hq, hNe] at hstrict
    have hge : 2 ^ 52 * (d * 2 ^ p) ≤ n := by
      refine Nat.le_trans (Nat.mul_le_mul_right _ ?_) hfloor
      omega
    have e : d * (ordinalQuanta k + 2 ^ 52 * 2 ^ p) < 2 * (2 ^ 52 * (d * 2 ^ p)) := by
      have h := Nat.mul_lt_mul_of_pos_left hstrict hd
      have e' : d * (2 ^ 52 * 2 ^ p) = 2 ^ 52 * (d * 2 ^ p) := by ring
      rw [Nat.mul_add]
      omega
    rw [hq, hNe]
    omega

theorem BelowMidpoint.mono {n d k j : Nat} (hd : 0 < d) (hkj : k < j)
    (h : BelowMidpoint n d k) : BelowMidpoint n d j := by
  have hm := Nat.mul_lt_mul_of_pos_left (midpoint_strictMono hkj) hd
  rcases h with h | ⟨h, -⟩
  · exact .inl (by omega)
  · exact .inl (by omega)

/-- **The nearest ordinal is at most `k` below the midpoint above `k`,** and on
it if `k` is even. -/
theorem nearestOrdinal_le_iff (n : Nat) {d : Nat} (hd : 0 < d) (k : Nat) :
    nearestOrdinal n d ≤ k ↔ BelowMidpoint n d k := by
  have hb := belowMidpoint_nearestOrdinal n hd
  constructor
  · intro hle
    rcases Nat.eq_or_lt_of_le hle with rfl | hlt
    · exact hb
    · exact hb.mono hd hlt
  · intro hk
    refine Nat.not_lt.1 fun hlt => ?_
    obtain ⟨j, hj⟩ : ∃ j, j + 1 = nearestOrdinal n d := ⟨nearestOrdinal n d - 1, by omega⟩
    have hnot := not_belowMidpoint_of_lt_nearestOrdinal n hd hj
    rcases Nat.eq_or_lt_of_le (show k ≤ j by omega) with rfl | h
    · exact hnot hk
    · exact hnot (hk.mono hd h)

theorem nearestOrdinal_mono {n d n' d' : Nat} (hd : 0 < d) (hd' : 0 < d')
    (h : n * d' ≤ n' * d) : nearestOrdinal n d ≤ nearestOrdinal n' d' := by
  rw [nearestOrdinal_le_iff n hd]
  have hb := belowMidpoint_nearestOrdinal n' hd'
  generalize nearestOrdinal n' d' = k at *
  unfold BelowMidpoint at *
  have e : 2 * (n' * d) = d * (2 * n') := by ring
  have e' : 2 * (n * d') = d' * (2 * n) := by ring
  have e'' : d * (d' * midpoint k) = d' * (d * midpoint k) := by ring
  rcases hb with hb | ⟨hb, hk⟩
  · have hm := Nat.mul_lt_mul_of_pos_left hb hd
    exact .inl (Nat.lt_of_mul_lt_mul_left (a := d') (by omega))
  · have hm : d' * (2 * n) ≤ d' * (d * midpoint k) := by rw [← e'', ← hb]; omega
    rcases Nat.eq_or_lt_of_le (Nat.le_of_mul_le_mul_left hm hd') with h | h
    · exact .inr ⟨h, hk⟩
    · exact .inl h

theorem nearestOrdinal_congr {n d n' d' : Nat} (hd : 0 < d) (hd' : 0 < d')
    (h : n * d' = n' * d) : nearestOrdinal n d = nearestOrdinal n' d' :=
  Nat.le_antisymm (nearestOrdinal_mono hd hd' (Nat.le_of_eq h))
    (nearestOrdinal_mono hd' hd (Nat.le_of_eq h.symm))

/-- A number nearer to an ordinal's value than half the last places on both its
sides is rounded to the ordinal. -/
theorem nearestOrdinal_eq_of_near {n d k : Nat} (hd : 0 < d)
    (hlow : 2 * (d * ordinalQuanta (k + 1)) < 2 * n + d * 2 ^ ordinalPlace k)
    (hhigh : 2 * n < 2 * (d * ordinalQuanta (k + 1)) + d * 2 ^ ordinalPlace (k + 1)) :
    nearestOrdinal n d = k + 1 := by
  refine Nat.le_antisymm ?_ (Nat.lt_of_not_le fun hle => ?_)
  · rw [nearestOrdinal_le_iff n hd, BelowMidpoint, midpoint, ordinalQuanta_succ (k + 1)]
    left
    have e : d * (ordinalQuanta (k + 1) + (ordinalQuanta (k + 1) + 2 ^ ordinalPlace (k + 1))) =
      2 * (d * ordinalQuanta (k + 1)) + d * 2 ^ ordinalPlace (k + 1) := by ring
    omega
  · rw [nearestOrdinal_le_iff n hd, BelowMidpoint, midpoint] at hle
    have hsucc := ordinalQuanta_succ k
    have e : d * (ordinalQuanta k + ordinalQuanta (k + 1)) + d * 2 ^ ordinalPlace k =
        2 * (d * ordinalQuanta (k + 1)) := by rw [hsucc]; ring
    omega

/-! ### Overflow -/

/-- The least number of quanta that is rounded past the greatest magnitude, half
a last place above it. -/
def overflowQuanta : Nat := (2 ^ 54 - 1) * 2 ^ 2044

/-- The least natural number that is rounded past the doubles. -/
def integerOverflow : Nat := 2 ^ 1024 - 2 ^ 970

theorem overflowQuanta_eq : overflowQuanta = integerOverflow * Binary64.unit := by
  decide +kernel

theorem midpoint_greatest : midpoint (ordinalBound - 1) = 2 * overflowQuanta := by
  decide +kernel

/-- **Rounding overflows from half a last place above the greatest magnitude on.** -/
theorem nearestOrdinal_lt_bound_iff (n : Nat) {d : Nat} (hd : 0 < d) :
    nearestOrdinal n d < ordinalBound ↔ n < overflowQuanta * d := by
  have h : nearestOrdinal n d < ordinalBound ↔ nearestOrdinal n d ≤ ordinalBound - 1 := by
    unfold ordinalBound; omega
  have hodd : ¬ (ordinalBound - 1) % 2 = 0 := by decide
  have e : d * (2 * overflowQuanta) = 2 * (overflowQuanta * d) := by ring
  rw [h, nearestOrdinal_le_iff n hd, BelowMidpoint, midpoint_greatest, e]
  omega

theorem Magnitude.quanta_lt_overflowQuanta (m : Magnitude) : m.quanta < overflowQuanta := by
  have h := (nearestOrdinal_lt_bound_iff (m.quanta * 1) Nat.one_pos).1
    (by rw [nearestOrdinal_quanta m Nat.one_pos]; exact m.ordinal_lt)
  omega

/-- Rounding adds at most a part in `2 ^ 53` to a number that fills its
mantissa. -/
theorem quanta_nearestOrdinal_le {n d : Nat} (hd : 0 < d) (h : 2 ^ 53 * d ≤ n) :
    2 ^ 53 * (d * ordinalQuanta (nearestOrdinal n d)) ≤ (2 ^ 53 + 1) * n := by
  have hbig : 2 ^ 53 ≤ nearestOrdinal n d := by
    refine Nat.not_lt.1 fun hlt => ?_
    have hb := (nearestOrdinal_le_iff n hd (2 ^ 53 - 1)).1 (by omega)
    have hm : midpoint (2 ^ 53 - 1) < 2 ^ 54 := by decide +kernel
    have hd' := Nat.mul_lt_mul_of_pos_left hm hd
    have hle : 2 * n ≤ d * midpoint (2 ^ 53 - 1) := by
      rcases hb with hb | ⟨hb, -⟩
      · exact Nat.le_of_lt hb
      · exact Nat.le_of_eq hb
    omega
  obtain ⟨k, hk⟩ : ∃ k, k + 1 = nearestOrdinal n d := ⟨nearestOrdinal n d - 1, by omega⟩
  have hnot := not_belowMidpoint_of_lt_nearestOrdinal n hd hk
  have hle := le_ordinalQuanta (k := k) (by omega)
  unfold BelowMidpoint midpoint at hnot
  rw [← hk]
  rw [ordinalQuanta_succ] at hnot ⊢
  generalize ordinalQuanta k = q at *
  generalize 2 ^ ordinalPlace k = g at *
  have hn : d * (q + (q + g)) ≤ 2 * n := by omega
  have hq : d * (2 ^ 52 * g) ≤ d * q := Nat.mul_le_mul_left _ hle
  have e1 : d * (q + (q + g)) = 2 * (d * q) + d * g := by ring
  have e2 : d * (2 ^ 52 * g) = 2 ^ 52 * (d * g) := by ring
  have e3 : d * (q + g) = d * q + d * g := by ring
  rw [e3]
  omega

namespace Binary64

theorem isFinite_nearest_iff (negative : Bool) (n : Nat) {d : Nat} (hd : 0 < d) :
    (nearest negative n d).isFinite = true ↔ n < overflowQuanta * d := by
  rw [← nearestOrdinal_lt_bound_iff n hd]
  unfold nearest
  split
  · rename_i h; exact iff_of_true rfl h
  · rename_i h; exact iff_of_false (by simp [isFinite]) h

theorem isNaN_nearest (negative : Bool) (n d : Nat) : (nearest negative n d).isNaN = false := by
  unfold nearest; split <;> rfl

/-- An integer of fifty-three bits, times a small power of two, is a double. -/
theorem exists_quanta_eq {c t : Nat} (hc : c ≤ 2 ^ 53) (ht : t ≤ 22) :
    ∃ m : Magnitude, m.quanta = c * 2 ^ t * unit := by
  rcases Nat.eq_zero_or_pos c with rfl | hpos
  · exact ⟨.zero, by rw [Magnitude.quanta_eq, Nat.zero_mul, Nat.zero_mul]; exact ordinalQuanta_zero⟩
  · have hne : c ≠ 0 := by omega
    have hlog : c.log2 ≤ 53 := by
      rw [← Nat.lt_succ_iff, Nat.log2_lt hne]
      omega
    rcases Nat.eq_or_lt_of_le hlog with heq | hlt
    · -- the one integer of fifty-four bits is a power of two
      have hge := (Nat.le_log2 hne).1 (Nat.le_of_eq heq.symm)
      obtain rfl : c = 2 ^ 53 := by omega
      refine ⟨⟨(1074 + t) * 2 ^ 52 + 2 ^ 53, by unfold ordinalBound; omega⟩, ?_⟩
      rw [Magnitude.quanta_eq, ordinalQuanta_place (.inr (by omega)) (Nat.le_refl _), unit]
      ring
    · obtain ⟨l, hl⟩ : ∃ l, c.log2 = l := ⟨_, rfl⟩
      have hlow := (Nat.le_log2 hne).1 (Nat.le_of_eq hl.symm)
      have hhigh : c < 2 ^ (l + 1) := (Nat.log2_lt hne).1 (by omega)
      have hmul : 2 ^ l * 2 ^ (52 - l) = 2 ^ 52 := by rw [← Nat.pow_add]; congr 1; omega
      have hmul' : 2 ^ (l + 1) * 2 ^ (52 - l) = 2 ^ 53 := by rw [← Nat.pow_add]; congr 1; omega
      have hmant : 2 ^ 52 ≤ c * 2 ^ (52 - l) := by
        rw [← hmul]; exact Nat.mul_le_mul_right _ hlow
      have hmant' : c * 2 ^ (52 - l) ≤ 2 ^ 53 := by
        rw [← hmul']; exact Nat.mul_le_mul_right _ (Nat.le_of_lt hhigh)
      have hexp : 52 - l + (1022 + l + t) = t + 1074 := by omega
      refine ⟨⟨(1022 + l + t) * 2 ^ 52 + c * 2 ^ (52 - l), by unfold ordinalBound; omega⟩, ?_⟩
      rw [Magnitude.quanta_eq, ordinalQuanta_place (.inr hmant) hmant', unit, Nat.mul_assoc,
        Nat.mul_assoc, ← Nat.pow_add, ← Nat.pow_add, hexp]

theorem exists_quanta_eq_units {c : Nat} (hc : c ≤ 2 ^ 53) :
    ∃ m : Magnitude, m.quanta = c * unit := by
  obtain ⟨m, hm⟩ := exists_quanta_eq hc (Nat.zero_le 22)
  rw [Nat.pow_zero, Nat.mul_one] at hm
  exact ⟨m, hm⟩

/-- An integer is rounded to a finite double below `2 ^ 1024 - 2 ^ 970`. -/
theorem isFinite_ofInt_iff (n : Int) :
    (ofInt n).isFinite = true ↔ n.natAbs < integerOverflow := by
  rw [ofInt, isFinite_nearest_iff _ _ Nat.one_pos, Nat.mul_one, overflowQuanta_eq]
  exact Nat.mul_lt_mul_right unit_pos

/-- A root of square quanta is rounded to a finite double below the square of
the overflow: neither the quarters nor the eighth cross it. -/
theorem isFinite_nearestRoot_iff (negative : Bool) (n : Nat) :
    (nearestRoot negative n).isFinite = true ↔ n < overflowQuanta * overflowQuanta := by
  unfold nearestRoot
  dsimp only
  rw [isFinite_nearest_iff _ _ (by decide)]
  have hlt : (16 * n).sqrt < 4 * overflowQuanta ↔ n < overflowQuanta * overflowQuanta := by
    rw [Nat.sqrt_lt]
    have e : 4 * overflowQuanta * (4 * overflowQuanta) = 16 * (overflowQuanta * overflowQuanta) := by
      ring
    rw [e]
    omega
  rw [← hlt]
  split <;> omega

end Binary64

end RegisterMachine
