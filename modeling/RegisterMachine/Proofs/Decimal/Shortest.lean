/-
# The shortest decimal reads back

On the grid of seventeen digits a step is less than the distance between
doubles, so one of the two points around a value is rounded to it
(`Magnitude.isSome_neighbour?_seventeen`): the search of the shortest decimal
ends there at the latest. What it finds is therefore rounded to the magnitude,
and so is the decimal without its zeros at the end, which is the same number
(`Decimal.Pads`).

Key definitions: `Decimal.ordinal`, `Decimal.Pads`.
Key theorems: `Decimal.Pads.ordinal_eq`, `nearestOrdinal_neighbour`,
`Magnitude.isSome_neighbour?_seventeen`, `Magnitude.shortest_spec`.
-/
import Mathlib.Tactic.GCongr
import Mathlib.Tactic.Positivity
import RegisterMachine.Decimal.Shortest
import RegisterMachine.Proofs.Binary64.Nearest

namespace RegisterMachine

/-! ### Decimals of one value -/

namespace Decimal

/-- The ordinal nearest to the decimal. -/
def ordinal (d : Decimal) : Nat :=
  nearestOrdinal (Binary64.decimalRatio d).1 (Binary64.decimalRatio d).2

/-- The decimal is the other one with some zeros more at its end. -/
def Pads (d d' : Decimal) : Prop :=
  ∃ k : Nat, d.coefficient = d'.coefficient * 10 ^ k ∧ d'.exponent = d.exponent + k

theorem Pads.refl (d : Decimal) : d.Pads d := ⟨0, by simp, by simp⟩

theorem Pads.trans {d d' d'' : Decimal} (h : d.Pads d') (h' : d'.Pads d'') : d.Pads d'' := by
  obtain ⟨k, hc, he⟩ := h
  obtain ⟨k', hc', he'⟩ := h'
  refine ⟨k' + k, ?_, by omega⟩
  rw [hc, hc', Nat.pow_add, Nat.mul_assoc]

theorem Pads.ordinal_eq {d d' : Decimal} (h : d.Pads d') : d.ordinal = d'.ordinal := by
  obtain ⟨k, hc, he⟩ := h
  apply nearestOrdinal_congr (Nat.pow_pos (by omega)) (Nat.pow_pos (by omega))
  have hexp : k + d.exponent.toNat + (-d'.exponent).toNat =
      d'.exponent.toNat + (-d.exponent).toNat := by omega
  have hpow : 10 ^ k * 10 ^ d.exponent.toNat * 10 ^ (-d'.exponent).toNat =
      10 ^ d'.exponent.toNat * 10 ^ (-d.exponent).toNat := by
    rw [← Nat.pow_add, ← Nat.pow_add, ← Nat.pow_add, hexp]
  calc d.coefficient * 10 ^ d.exponent.toNat * Binary64.unit * 10 ^ (-d'.exponent).toNat
      = d'.coefficient * (10 ^ k * 10 ^ d.exponent.toNat * 10 ^ (-d'.exponent).toNat) *
          Binary64.unit := by rw [hc]; ring
    _ = d'.coefficient * 10 ^ d'.exponent.toNat * Binary64.unit *
          10 ^ (-d.exponent).toNat := by rw [hpow]; ring

theorem Pads.coefficient_le {d d' : Decimal} (h : d.Pads d') : d'.coefficient ≤ d.coefficient := by
  obtain ⟨k, hc, -⟩ := h
  rw [hc]
  exact Nat.le_mul_of_pos_right _ (Nat.pow_pos (by omega))

theorem Pads.coefficient_ne_zero {d d' : Decimal} (h : d.Pads d') (hd : d.coefficient ≠ 0) :
    d'.coefficient ≠ 0 := by
  obtain ⟨k, hc, -⟩ := h
  rintro h0
  rw [h0, Nat.zero_mul] at hc
  exact hd hc

theorem pads_strip (fuel : Nat) (d : Decimal) : d.Pads (d.strip fuel) := by
  induction fuel generalizing d with
  | zero => exact .refl d
  | succ fuel ih =>
    unfold strip
    split
    · rename_i h
      refine Pads.trans ⟨1, ?_, ?_⟩ (ih _)
      · simp only [Nat.pow_one]
        omega
      · simp
    · exact .refl d

theorem ordinal_of_readsAs {d : Decimal} {m : Magnitude} (h : d.readsAs m = true)
    (hm : m.ordinal ≠ 0) : d.ordinal = m.ordinal ∧ d.coefficient ≠ 0 := by
  unfold readsAs at h
  rw [beq_iff_eq] at h
  unfold Binary64.ofDecimal at h
  dsimp only at h
  split at h
  · injection h with _ h
    exact absurd (by rw [← h]; rfl) hm
  · rename_i hguard
    split at h
    · cases h
    · unfold Binary64.nearest at h
      split at h
      · injection h with _ h
        refine ⟨by rw [← h]; rfl, fun h0 => hguard (.inl h0)⟩
      · cases h

end Decimal

/-! ### The grid of seventeen digits -/

theorem lt_decimalLength {n k : Nat} (h : 10 ^ k ≤ n) : k < decimalLength n := by
  refine Nat.lt_of_not_le fun hle => ?_
  have hpow := Nat.pow_le_pow_right (n := 10) (by omega) hle
  have hlt := lt_pow_decimalLength n
  omega

theorem decimalLength_le {n k : Nat} (hk : 0 < k) (h : n < 10 ^ k) : decimalLength n ≤ k :=
  (Nat.length_toDigits_le_iff (by omega) hk).2 h

/-- A bound of a scaled value is one of the value in steps of a power of ten. -/
theorem mul_pow_le_of_scaled {q u a b k l t : Nat} (h : 10 ^ l * u ≤ q * 10 ^ t)
    (hexp : k + a + t ≤ l + b) : 10 ^ k * (u * 10 ^ a) ≤ q * 10 ^ b := by
  refine Nat.le_of_mul_le_mul_right (c := 10 ^ t) ?_ (by positivity)
  calc 10 ^ k * (u * 10 ^ a) * 10 ^ t
      = 10 ^ (k + a + t) * u := by ring
    _ ≤ 10 ^ (l + b) * u := by gcongr; omega
    _ = 10 ^ l * u * 10 ^ b := by ring
    _ ≤ q * 10 ^ t * 10 ^ b := by gcongr
    _ = q * 10 ^ b * 10 ^ t := by ring

theorem lt_mul_pow_of_scaled {q u a b k l t : Nat} (h : q * 10 ^ t < 10 ^ l * u)
    (hexp : l + b ≤ k + a + t) : q * 10 ^ b < 10 ^ k * (u * 10 ^ a) := by
  apply Nat.lt_of_mul_lt_mul_right (a := 10 ^ t)
  calc q * 10 ^ b * 10 ^ t
      = q * 10 ^ t * 10 ^ b := by ring
    _ < 10 ^ l * u * 10 ^ b := by gcongr
    _ = 10 ^ (l + b) * u := by ring
    _ ≤ 10 ^ (k + a + t) * u := by gcongr; omega
    _ = 10 ^ k * (u * 10 ^ a) * 10 ^ t := by ring

/-- Of the two multiples of `d` around a value of an ordinal, the nearer one is
rounded to the ordinal, if the value is `10 ^ 16` steps `d` at least. -/
theorem nearestOrdinal_neighbour {n d p k : Nat} (hp : 0 < p) (hd : 0 < d)
    (hle : 10 ^ 16 * d ≤ n) (hn : n = p * ordinalQuanta (k + 1)) :
    nearestOrdinal (d * (n / d)) p = k + 1 ∨ nearestOrdinal (d * (n / d + 1)) p = k + 1 := by
  have hdiv := Nat.div_add_mod n d
  have hmod := Nat.mod_lt n hd
  have hlast : ordinalQuanta (k + 1) ≤ 2 ^ 53 * 2 ^ ordinalPlace k := by
    have hlt := ordinalQuanta_lt k
    have hplace : ordinalQuanta k + 2 ^ ordinalPlace k ≤ 2 ^ 53 * 2 ^ ordinalPlace k := by
      have hmantissa : k - ordinalPlace k * 2 ^ 52 + 1 ≤ 2 ^ 53 := by unfold ordinalPlace; omega
      calc ordinalQuanta k + 2 ^ ordinalPlace k
          = (k - ordinalPlace k * 2 ^ 52 + 1) * 2 ^ ordinalPlace k := by
            rw [Nat.add_mul, Nat.one_mul]
            rfl
        _ ≤ 2 ^ 53 * 2 ^ ordinalPlace k := Nat.mul_le_mul_right _ hmantissa
    rw [ordinalQuanta_succ]
    exact hplace
  have hlast' := Nat.le_of_lt (ordinalQuanta_lt (k + 1))
  have hplaces := Nat.mul_le_mul_left p hlast
  have hplaces' := Nat.mul_le_mul_left p hlast'
  have e : p * (2 ^ 53 * 2 ^ ordinalPlace k) = 2 ^ 53 * (p * 2 ^ ordinalPlace k) := by ring
  have e' : p * (2 ^ 53 * 2 ^ ordinalPlace (k + 1)) =
      2 ^ 53 * (p * 2 ^ ordinalPlace (k + 1)) := by ring
  have hpos : 0 < p * 2 ^ ordinalPlace k := by positivity
  have hpos' : 0 < p * 2 ^ ordinalPlace (k + 1) := by positivity
  have hnext : d * (n / d + 1) = d * (n / d) + d := by ring
  rcases Nat.lt_or_ge d (2 * (n % d)) with hhalf | hhalf
  · right
    refine nearestOrdinal_eq_of_near hp ?_ ?_ <;> omega
  · left
    refine nearestOrdinal_eq_of_near hp ?_ ?_ <;> omega

namespace Magnitude

/-- The length of the scaled value, from which the place of the leading digit is
counted. -/
theorem scaled_bounds (m : Magnitude) :
    ∃ len : Nat, m.leadingExponent = len - 401 ∧
      m.quanta * 10 ^ 400 < 10 ^ len * Binary64.unit ∧
      (m.ordinal ≠ 0 → 10 ^ (len - 1) * Binary64.unit ≤ m.quanta * 10 ^ 400 ∧
        76 < len ∧ len ≤ 709) := by
  refine ⟨decimalLength (m.quanta * 10 ^ 400 / Binary64.unit), rfl, ?_, fun h => ?_⟩
  · have hlen := lt_pow_decimalLength (m.quanta * 10 ^ 400 / Binary64.unit)
    rwa [Nat.div_lt_iff_lt_mul Binary64.unit_pos] at hlen
  · have hq : 0 < m.quanta := by
      have hpos := ordinalQuanta_strictMono (Nat.pos_of_ne_zero h)
      rwa [ordinalQuanta_zero, ← m.quanta_eq] at hpos
    have hlow : 10 ^ 76 * Binary64.unit ≤ 10 ^ 400 := by decide +kernel
    have hhigh : overflowQuanta * 10 ^ 400 ≤ 10 ^ 709 * Binary64.unit := by decide +kernel
    have hscaled : 10 ^ 76 ≤ m.quanta * 10 ^ 400 / Binary64.unit := by
      rw [Nat.le_div_iff_mul_le Binary64.unit_pos]
      exact Nat.le_trans hlow (Nat.le_mul_of_pos_left _ hq)
    have hscaled' : m.quanta * 10 ^ 400 / Binary64.unit < 10 ^ 709 := by
      rw [Nat.div_lt_iff_lt_mul Binary64.unit_pos]
      refine Nat.lt_of_lt_of_le (Nat.mul_lt_mul_of_pos_right m.quanta_lt_overflowQuanta ?_) hhigh
      positivity
    have hlen := lt_decimalLength hscaled
    refine ⟨?_, hlen, decimalLength_le (by omega) hscaled'⟩
    rw [← Nat.le_div_iff_mul_le Binary64.unit_pos]
    exact pow_le_of_lt_decimalLength (by omega) (by omega)

/-- On the grid of seventeen digits and finer ones, the value is at least `10 ^ 16`
steps. -/
theorem le_inSteps (m : Magnitude) (h : m.ordinal ≠ 0) {e : Int}
    (he : e ≤ m.leadingExponent - 16) : 10 ^ 16 * (m.inSteps e).2 ≤ (m.inSteps e).1 := by
  obtain ⟨len, hlead, -, hbounds⟩ := m.scaled_bounds
  obtain ⟨hs, hlen, -⟩ := hbounds h
  exact mul_pow_le_of_scaled hs (by omega)

theorem inSteps_lt (m : Magnitude) {e : Int} (he : m.leadingExponent - 16 ≤ e) :
    (m.inSteps e).1 < 10 ^ 17 * (m.inSteps e).2 := by
  obtain ⟨len, hlead, hs, -⟩ := m.scaled_bounds
  exact lt_mul_pow_of_scaled hs (by omega)

theorem ordinal_point (m : Magnitude) (c : Nat) (e : Int) :
    (⟨c, e⟩ : Decimal).ordinal =
      nearestOrdinal ((m.inSteps e).2 * c) (10 ^ (-e).toNat) := by
  have hratio : c * 10 ^ e.toNat * Binary64.unit = Binary64.unit * 10 ^ e.toNat * c := by
    rw [Nat.mul_comm, Nat.mul_comm c, Nat.mul_assoc]
  rw [Decimal.ordinal, Binary64.decimalRatio, inSteps, hratio]

/-- **Of the two neighbours on the grid of seventeen digits the nearer one reads
back.** It is at most half a step away, a step is at most a part in `10 ^ 16` of
the value, and the value has at most `2 ^ 53` last places. -/
theorem ordinal_neighbour (m : Magnitude) (h : m.ordinal ≠ 0) {e : Int}
    (he : e = m.leadingExponent - 16) :
    (⟨(m.inSteps e).1 / (m.inSteps e).2, e⟩ : Decimal).ordinal = m.ordinal ∨
      (⟨(m.inSteps e).1 / (m.inSteps e).2 + 1, e⟩ : Decimal).ordinal = m.ordinal := by
  obtain ⟨k, hk⟩ : ∃ k, m.ordinal = k + 1 := ⟨m.ordinal - 1, by omega⟩
  have hle := m.le_inSteps h (Int.le_of_eq he)
  have hP : 0 < 10 ^ (-e).toNat := by positivity
  have hD : 0 < (m.inSteps e).2 := Nat.mul_pos Binary64.unit_pos (by positivity)
  have hn : (m.inSteps e).1 = 10 ^ (-e).toNat * ordinalQuanta (k + 1) := by
    rw [← hk, ← m.quanta_eq, Nat.mul_comm]
    rfl
  rw [m.ordinal_point, m.ordinal_point, hk]
  exact nearestOrdinal_neighbour hP hD hle hn

end Magnitude

/-! ### The search -/

namespace Decimal

/-- A decimal of the ordinal reads as the magnitude, if it is not written off as
too large or too small. -/
theorem readsAs_of_ordinal {d : Decimal} {m : Magnitude} (h : d.ordinal = m.ordinal)
    (hc : d.coefficient ≠ 0) (hlow : -330 ≤ decimalLength d.coefficient + d.exponent)
    (hhigh : decimalLength d.coefficient + d.exponent ≤ 310) : d.readsAs m = true := by
  have hm := m.ordinal_lt
  rw [← h] at hm
  unfold ordinal at h hm
  have hnear : Binary64.nearest false (Binary64.decimalRatio d).1 (Binary64.decimalRatio d).2 =
      .finite false m := by
    rw [Binary64.nearest, dif_pos hm]
    cases m
    simp_all
  unfold readsAs
  rw [beq_iff_eq, Binary64.ofDecimal, if_neg (not_or.2 ⟨hc, by omega⟩), if_neg (by omega), hnear]

end Decimal

theorem firstBelow_spec {α : Type} {find : Int → Option α} (default : α) {fuel j : Nat} {e : Int}
    (hj : j < fuel) (h : (find (e - j)).isSome = true) :
    ∃ i, i ≤ j ∧ find (e - (i : Nat)) = some (firstBelow find default fuel e) := by
  induction fuel generalizing j e with
  | zero => omega
  | succ fuel ih =>
    unfold firstBelow
    split
    · rename_i d hd
      exact ⟨0, Nat.zero_le j, by simpa using hd⟩
    · rename_i hnone
      cases j with
      | zero =>
        rw [Int.natCast_zero, Int.sub_zero, hnone] at h
        cases h
      | succ j =>
        have hstep : e - (j + 1 : Nat) = e - 1 - j := by omega
        rw [hstep] at h
        obtain ⟨i, hi, hd⟩ := ih (by omega) h
        refine ⟨i + 1, by omega, ?_⟩
        rw [← hd]
        congr 1
        omega

namespace Magnitude

/-- What is found on a grid is one of the two points around the value, and it
reads back. -/
theorem neighbour?_eq_some {tie : Tie} {m : Magnitude} {e : Int} {d : Decimal}
    (h : m.neighbour? tie e = some d) :
    d.readsAs m = true ∧ d.exponent = e ∧
      d.coefficient ≤ (m.inSteps e).1 / (m.inSteps e).2 + 1 := by
  unfold neighbour? at h
  dsimp only at h
  split at h
  · rename_i hbelow
    split at h
    · rename_i habove
      cases h
      exact ⟨habove.1, rfl, Nat.le_refl _⟩
    · cases h
      exact ⟨hbelow, rfl, Nat.le_succ _⟩
  · split at h
    · rename_i habove
      cases h
      exact ⟨habove, rfl, Nat.le_refl _⟩
    · cases h

theorem isSome_neighbour? {tie : Tie} {m : Magnitude} {e : Int}
    (h : (⟨(m.inSteps e).1 / (m.inSteps e).2, e⟩ : Decimal).readsAs m = true ∨
      (⟨(m.inSteps e).1 / (m.inSteps e).2 + 1, e⟩ : Decimal).readsAs m = true) :
    (m.neighbour? tie e).isSome = true := by
  unfold neighbour?
  dsimp only
  split
  · split <;> rfl
  · rename_i hbelow
    rw [if_pos (h.resolve_left hbelow)]
    rfl

/-- **Seventeen digits suffice.** -/
theorem isSome_neighbour?_seventeen (tie : Tie) {m : Magnitude} (h : m.ordinal ≠ 0) :
    (m.neighbour? tie (m.leadingExponent - 16)).isSome = true := by
  obtain ⟨len, hlead, -, hbounds⟩ := m.scaled_bounds
  obtain ⟨-, hlow, hhigh⟩ := hbounds h
  generalize he : m.leadingExponent - 16 = e
  have hle := m.le_inSteps h (e := e) (by omega)
  have hlt := m.inSteps_lt (e := e) (by omega)
  have hD : 0 < (m.inSteps e).2 := Nat.mul_pos Binary64.unit_pos (by positivity)
  have hq : 10 ^ 16 ≤ (m.inSteps e).1 / (m.inSteps e).2 := (Nat.le_div_iff_mul_le hD).2 hle
  have hq' : (m.inSteps e).1 / (m.inSteps e).2 < 10 ^ 17 := (Nat.div_lt_iff_lt_mul hD).2 hlt
  have hreads : ∀ c : Nat, 10 ^ 16 ≤ c → c ≤ 10 ^ 17 →
      (⟨c, e⟩ : Decimal).ordinal = m.ordinal → (⟨c, e⟩ : Decimal).readsAs m = true := by
    intro c hc hc' hord
    have hlen := lt_decimalLength hc
    have hlen' : decimalLength c ≤ 18 := decimalLength_le (by omega) (by omega)
    refine Decimal.readsAs_of_ordinal hord ?_ ?_ ?_ <;> dsimp only <;> omega
  refine isSome_neighbour? ((m.ordinal_neighbour h he.symm).imp ?_ ?_)
  · exact hreads _ hq (by omega)
  · exact hreads _ (by omega) (by omega)

/-- **The shortest decimal reads back,** it has seventeen digits at most, or it
is the next power of ten. -/
theorem shortest_spec (tie : Tie) {m : Magnitude} (h : m.ordinal ≠ 0) :
    (m.shortest tie).ordinal = m.ordinal ∧ (m.shortest tie).coefficient ≠ 0 ∧
      (m.shortest tie).coefficient ≤ 10 ^ 17 := by
  have hsome := isSome_neighbour?_seventeen tie h
  obtain ⟨i, hi, hd⟩ := firstBelow_spec m.exactDecimal (show 16 < 17 by omega) hsome
  obtain ⟨hreads, -, hc⟩ := neighbour?_eq_some hd
  obtain ⟨hord, hne⟩ := Decimal.ordinal_of_readsAs hreads h
  have hlt : (m.inSteps (m.leadingExponent - (i : Nat))).1 <
      10 ^ 17 * (m.inSteps (m.leadingExponent - (i : Nat))).2 := m.inSteps_lt (by omega)
  have hD : 0 < (m.inSteps (m.leadingExponent - (i : Nat))).2 :=
    Nat.mul_pos Binary64.unit_pos (by positivity)
  have hq := (Nat.div_lt_iff_lt_mul hD).2 hlt
  have hpads := Decimal.pads_strip 17 (m.shortestFrom tie 17 m.leadingExponent)
  rw [shortest, if_neg h]
  refine ⟨hpads.ordinal_eq ▸ hord, hpads.coefficient_ne_zero hne, ?_⟩
  exact Nat.le_trans hpads.coefficient_le (Nat.le_trans hc hq)

end Magnitude

end RegisterMachine
