/-
# Bounds of intervals

Both ends of an interval within a bound (`Interval.Within`) stay within one that
is easily found: sums add the bounds, products multiply them, and a series of
terms within a bound stays within so many times the bound as it has fuel. A
series of terms that are not negative is at least its first term, up to the rest
(`le_oddPowers`). The bounds are far from sharp; they say that logarithms of
doubles are small, and that the logarithm of ten can be divided by.

Key definitions: `Interval.Within`, `Interval.NonNegative`.
Key theorems: `Interval.within_series`, `Interval.le_oddPowers`,
`Interval.within_log`, `Interval.log10?_lo_bounds`.
-/
import Mathlib.Tactic.Linarith
import Mathlib.Tactic.Positivity
import Mathlib.Tactic.Ring
import RegisterMachine.Elementary.Exponential

namespace RegisterMachine.Interval

variable {p : Nat}

/-! ### Ends within a bound -/

theorem one_pos (p : Nat) : 0 < (one p : Int) := by
  unfold one
  positivity

/-- Both ends are at most `r` in absolute value. -/
structure Within (r : Int) (a : Interval p) : Prop where
  neg_le_lo : -r ≤ a.lo
  lo_le : a.lo ≤ r
  neg_le_hi : -r ≤ a.hi
  hi_le : a.hi ≤ r

theorem within_radius (a : Interval p) : Within a.radius a := by
  unfold radius
  constructor <;> omega

theorem Within.radius_le {r : Int} {a : Interval p} (h : Within r a) : (a.radius : Int) ≤ r := by
  obtain ⟨h1, h2, h3, h4⟩ := h
  unfold radius
  omega

theorem Within.mono {r s : Int} {a : Interval p} (h : Within r a) (hrs : r ≤ s) : Within s a := by
  obtain ⟨h1, h2, h3, h4⟩ := h
  constructor <;> omega

theorem Within.nonneg {r : Int} {a : Interval p} (h : Within r a) : 0 ≤ r := by
  obtain ⟨h1, h2, -, -⟩ := h
  omega

theorem ediv_within {n d r : Int} (hd : 0 < d) (hlow : -(r * d) ≤ n) (hhigh : n ≤ r * d) :
    -r ≤ n / d ∧ n / d ≤ r := by
  constructor
  · rw [Int.le_ediv_iff_mul_le hd, Int.neg_mul]
    exact hlow
  · exact Int.ediv_le_of_le_mul hd hhigh

theorem ceilDiv_within {n d r : Int} (hd : 0 < d) (hlow : -(r * d) ≤ n) (hhigh : n ≤ r * d) :
    -r ≤ ceilDiv n d ∧ ceilDiv n d ≤ r := by
  obtain ⟨h1, h2⟩ := ediv_within (n := -n) (r := r) hd (by omega) (by omega)
  unfold ceilDiv
  omega

theorem within_ofQuotient {n : Int} {d : Nat} {r : Int} (hd : 0 < d)
    (h : n.natAbs * one p ≤ r * d) : Within r (ofQuotient p n d) := by
  have hd' : (0 : Int) < d := by exact_mod_cast hd
  have habs : |n * one p| ≤ r * d := by
    rw [abs_mul, Int.abs_eq_natAbs, Nat.abs_cast]
    exact h
  obtain ⟨hlow, hhigh⟩ := abs_le.1 habs
  obtain ⟨h1, h2⟩ := ediv_within hd' hlow hhigh
  obtain ⟨h3, h4⟩ := ceilDiv_within hd' hlow hhigh
  exact ⟨h1, h2, h3, h4⟩

theorem Within.add {r s : Int} {a b : Interval p} (ha : Within r a) (hb : Within s b) :
    Within (r + s) (a.add b) := by
  obtain ⟨h1, h2, h3, h4⟩ := ha
  obtain ⟨h5, h6, h7, h8⟩ := hb
  constructor <;> simp only [Interval.add] <;> omega

theorem Within.rest {r : Int} {a : Interval p} (h : Within r a) : Within (2 * r) a.rest := by
  have hr := h.radius_le
  constructor <;> simp only [Interval.rest] <;> omega

theorem mul_within {k z r : Int} (hlow : -r ≤ z) (hhigh : z ≤ r) :
    -(|k| * r) ≤ k * z ∧ k * z ≤ |k| * r := by
  rw [← abs_le, abs_mul]
  exact mul_le_mul_of_nonneg_left (abs_le.2 ⟨hlow, hhigh⟩) (abs_nonneg k)

theorem Within.scale {r : Int} {a : Interval p} (h : Within r a) (k : Int) :
    Within (|k| * r) (a.scale k) := by
  obtain ⟨h1, h2⟩ := mul_within (k := k) h.neg_le_lo h.lo_le
  obtain ⟨h3, h4⟩ := mul_within (k := k) h.neg_le_hi h.hi_le
  unfold Interval.scale
  split
  · exact ⟨h1, h2, h3, h4⟩
  · exact ⟨h3, h4, h1, h2⟩

theorem Within.divNat {r : Int} {a : Interval p} (h : Within r a) {k : Nat} (hk : 0 < k) :
    Within r (a.divNat k) := by
  have hr := h.nonneg
  have hk' : (0 : Int) < k := by exact_mod_cast hk
  have hle : r ≤ r * k := le_mul_of_one_le_right hr (by omega)
  obtain ⟨h1, h2⟩ := ediv_within (n := a.lo) (r := r) hk' (by linarith [h.neg_le_lo])
    (by linarith [h.lo_le])
  obtain ⟨h3, h4⟩ := ceilDiv_within (n := a.hi) (r := r) hk' (by linarith [h.neg_le_hi])
    (by linarith [h.hi_le])
  exact ⟨h1, h2, h3, h4⟩

/-- A product of numbers within `r` and `s` is within `r * s`, in steps. -/
theorem Within.mul {r s m : Int} {a b : Interval p} (ha : Within r a) (hb : Within s b)
    (hm : r * s ≤ m * one p) : Within m (a.mul b) := by
  have hprod : ∀ x y : Int, -r ≤ x → x ≤ r → -s ≤ y → y ≤ s →
      -(m * one p) ≤ x * y ∧ x * y ≤ m * one p := by
    intro x y hx hx' hy hy'
    have hxy : |x * y| ≤ r * s := by
      rw [abs_mul]
      exact mul_le_mul (abs_le.2 ⟨hx, hx'⟩) (abs_le.2 ⟨hy, hy'⟩) (abs_nonneg y) ha.nonneg
    obtain ⟨h1, h2⟩ := abs_le.1 hxy
    constructor <;> linarith
  obtain ⟨hll, hll'⟩ := hprod _ _ ha.neg_le_lo ha.lo_le hb.neg_le_lo hb.lo_le
  obtain ⟨hlh, hlh'⟩ := hprod _ _ ha.neg_le_lo ha.lo_le hb.neg_le_hi hb.hi_le
  obtain ⟨hhl, hhl'⟩ := hprod _ _ ha.neg_le_hi ha.hi_le hb.neg_le_lo hb.lo_le
  obtain ⟨hhh, hhh'⟩ := hprod _ _ ha.neg_le_hi ha.hi_le hb.neg_le_hi hb.hi_le
  have hone := one_pos p
  obtain ⟨h1, h2⟩ := ediv_within (r := m) hone
    (n := min (min (a.lo * b.lo) (a.lo * b.hi)) (min (a.hi * b.lo) (a.hi * b.hi)))
    (by omega) (by omega)
  obtain ⟨h3, h4⟩ := ceilDiv_within (r := m) hone
    (n := max (max (a.lo * b.lo) (a.lo * b.hi)) (max (a.hi * b.lo) (a.hi * b.hi)))
    (by omega) (by omega)
  exact ⟨h1, h2, h3, h4⟩

theorem Within.mul_one {r : Int} {a b : Interval p} (ha : Within r a) (hb : Within (one p) b) :
    Within r (a.mul b) := ha.mul hb (Int.le_refl _)

/-! ### Series -/

/-- A series of terms within a bound has at most one of them for each unit of fuel
and two for the rest. -/
theorem within_series {w f : Nat → Interval p → Interval p} {r : Int}
    (hw : ∀ k a, Within r a → Within r (w k a))
    (hf : ∀ k a, Within r a → Within r (f k a)) (fuel k : Nat) {t : Interval p}
    (h : Within r t) : Within ((fuel + 2) * r) (series w f fuel k t) := by
  have hr := h.nonneg
  have hfuel : ∀ fuel : Nat, 0 ≤ fuel * r := fun fuel => mul_nonneg (by omega) hr
  induction fuel generalizing k t with
  | zero =>
    rw [series]
    exact h.rest.mono (by simp)
  | succ fuel ih =>
    rw [series]
    split
    · apply h.rest.mono
      have := hfuel (fuel + 1)
      rw [Int.add_mul]
      omega
    · refine ((hw k t h).add (ih (k + 1) (hf k t h))).mono ?_
      push_cast
      linarith

theorem within_oddPowers {t : Interval p} (h : Within (one p) t) :
    Within ((p + 2) * one p) (oddPowers false t) :=
  within_series (fun _ _ ha => ha.divNat (by omega)) (fun _ _ ha => ha.mul_one (h.mul_one h)) p 0 h

/-! ### Lower bounds -/

/-- Both ends are not negative. -/
def NonNegative (a : Interval p) : Prop := 0 ≤ a.lo ∧ 0 ≤ a.hi

theorem ceilDiv_nonneg {n d : Int} (hd : 0 < d) (hn : 0 ≤ n) : 0 ≤ ceilDiv n d := by
  have hle : -n / d ≤ 0 := Int.ediv_nonpos_of_nonpos_of_neg (by omega) hd
  unfold ceilDiv
  omega

theorem NonNegative.divNat {a : Interval p} (h : NonNegative a) {k : Nat} (hk : 0 < k) :
    NonNegative (a.divNat k) :=
  ⟨Int.ediv_nonneg h.1 (Int.natCast_nonneg k), ceilDiv_nonneg (by omega) h.2⟩

theorem NonNegative.mul {a b : Interval p} (ha : NonNegative a) (hb : NonNegative b) :
    NonNegative (a.mul b) := by
  have hll := mul_nonneg ha.1 hb.1
  have hlh := mul_nonneg ha.1 hb.2
  have hhl := mul_nonneg ha.2 hb.1
  have hhh := mul_nonneg ha.2 hb.2
  exact ⟨Int.ediv_nonneg (by omega) (Int.le_of_lt (one_pos p)),
    ceilDiv_nonneg (one_pos p) (by omega)⟩

theorem nonNegative_ofQuotient (n d : Nat) (hd : 0 < d) : NonNegative (ofQuotient p n d) := by
  have hn : 0 ≤ (n : Int) * one p := by positivity
  exact ⟨Int.ediv_nonneg hn (Int.natCast_nonneg d), ceilDiv_nonneg (by omega) hn⟩

/-- A series of terms that are not negative is not less than its rest can be. -/
theorem le_series {w f : Nat → Interval p → Interval p} {r : Int}
    (hw : ∀ k a, NonNegative a → NonNegative (w k a))
    (hf : ∀ k a, NonNegative a → Within r a → NonNegative (f k a) ∧ Within r (f k a))
    (fuel k : Nat) {t : Interval p} (hpos : NonNegative t) (h : Within r t) :
    -(2 * r) ≤ (series w f fuel k t).lo ∧ 0 ≤ (series w f fuel k t).hi := by
  have hrest : ∀ {t : Interval p}, Within r t → -(2 * r) ≤ t.rest.lo ∧ 0 ≤ t.rest.hi := by
    intro t h
    have hr := h.radius_le
    simp only [rest]
    omega
  induction fuel generalizing k t with
  | zero => exact hrest h
  | succ fuel ih =>
    rw [series]
    split
    · exact hrest h
    · obtain ⟨hpos', h'⟩ := hf k t hpos h
      obtain ⟨hlo, hhi⟩ := ih (k + 1) hpos' h'
      obtain ⟨hwlo, hwhi⟩ := hw k t hpos
      simp only [Interval.add]
      omega

/-- The odd powers of a positive fraction `1 / d` sum up to no less than the first
one and the rest from the second one on. -/
theorem le_oddPowers {t : Interval p} {r m : Int} (hp : p ≠ 0) (hpos : NonNegative t)
    (ht : Within r t) (hone : r ≤ one p) (hm : r * r ≤ m * one p) (hm' : 0 < m) :
    t.lo - 2 * m - 2 ≤ (oddPowers false t).lo ∧ t.hi ≤ (oddPowers false t).hi := by
  obtain ⟨fuel, rfl⟩ : ∃ fuel, p = fuel + 1 := ⟨p - 1, by omega⟩
  have hsquare : Within r (t.mul t) := ht.mul_one (ht.mono hone)
  have hseries := le_series (w := fun k u => u.divNat (2 * k + 1))
    (f := fun _ u => u.mul (t.mul t)) (fun _ _ ha => ha.divNat (by omega))
    (fun _ _ ha ha' => ⟨ha.mul (hpos.mul hpos), ha'.mul_one (hsquare.mono hone)⟩)
    fuel 1 (hpos.mul (hpos.mul hpos)) (ht.mul hsquare hm)
  have hodd : oddPowers false t = if t.radius ≤ 1 then t.rest else
      (t.divNat 1).add (series (fun k u => u.divNat (2 * k + 1)) (fun _ u => u.mul (t.mul t))
        fuel 1 (t.mul (t.mul t))) := rfl
  rw [hodd]
  split
  · rename_i hsmall
    have hradius := within_radius t
    have hlo := hradius.lo_le
    have hhi := hradius.hi_le
    simp only [rest]
    omega
  · obtain ⟨hlo, hhi⟩ := hseries
    have hfirst : (t.divNat 1).lo = t.lo := by simp [Interval.divNat]
    have hfirst' : (t.divNat 1).hi = t.hi := by simp [Interval.divNat, ceilDiv]
    simp only [Interval.add]
    omega

theorem le_logTen (hp : 8 ≤ p) :
    (one p : Int) ≤ 8 * (logTen p).lo ∧ (one p : Int) ≤ 8 * (logTen p).hi := by
  have hbig : 2 ^ 8 ≤ one p := Nat.pow_le_pow_right (by omega) hp
  have hlo : ∀ d : Nat, (ofQuotient p 1 d).lo = one p / d := by simp [ofQuotient]
  have hwithin : ∀ d : Nat, 0 < d → Within ((one p : Int) / d + 1) (ofQuotient p 1 d) := by
    intro d hd
    have hmod := Int.mul_ediv_add_emod (one p) d
    have hlt := Int.emod_lt_of_pos (one p : Int) (by exact_mod_cast hd : (0 : Int) < d)
    apply within_ofQuotient hd
    rw [Int.natAbs_one, Nat.cast_one, Int.one_mul, Int.add_mul, Int.mul_comm _ (d : Int)]
    omega
  have hthird := hwithin 3 (by omega)
  have hninth := hwithin 9 (by omega)
  have hm : ∀ r : Int, 0 ≤ r → 3 * r ≤ one p + 3 → r * r ≤ ((one p : Int) / 9 + 2) * one p := by
    intro r hr hle
    have h9 : (one p : Int) + 10 ≤ 9 * ((one p : Int) / 9 + 2) := by omega
    nlinarith
  obtain ⟨h3, h3'⟩ := le_oddPowers (m := (one p : Int) / 9 + 2) (by omega)
    (nonNegative_ofQuotient 1 3 (by omega)) hthird (by omega) (hm _ (by omega) (by omega))
    (by omega)
  obtain ⟨h9, h9'⟩ := le_oddPowers (m := (one p : Int) / 9 + 2) (by omega)
    (nonNegative_ofQuotient 1 9 (by omega)) hninth (by omega) (hm _ (by omega) (by omega))
    (by omega)
  rw [Nat.cast_one, hlo] at h3 h9
  have hhi : (one p : Int) / 3 ≤ (ofQuotient p 1 3).hi := by
    simp only [ofQuotient, ceilDiv, Int.one_mul]
    push_cast
    omega
  have hhi' := (nonNegative_ofQuotient (p := p) 1 9 (by omega)).2
  rw [Nat.cast_one] at h3' h9' hhi'
  have hten' : (logTen p).hi = 3 * (2 * (oddPowers false (ofQuotient p 1 3)).hi) +
      2 * (oddPowers false (ofQuotient p 1 9)).hi := rfl
  have hten : (logTen p).lo = 3 * (2 * (oddPowers false (ofQuotient p 1 3)).lo) +
      2 * (oddPowers false (ofQuotient p 1 9)).lo := rfl
  rw [hten, hten']
  push_cast at h3 h9
  omega

/-! ### Logarithms -/

theorem within_logTwo (p : Nat) : Within (2 * ((p + 2) * one p)) (logTwo p) := by
  have hthird : Within (one p) (ofQuotient p 1 3) :=
    within_ofQuotient (by omega) (by rw [Int.natAbs_one]; omega)
  exact (within_oddPowers hthird).scale 2

/-- The logarithm of `n / 2 ^ 1074` is less than `2150 * (p + 2)`, which is little for
few places. -/
theorem within_log {n : Nat} (hn : 0 < n) (hlog : n.log2 < 2098) (p : Nat) :
    Within (2150 * ((p + 2) * one p)) (log n 1074 p) := by
  have hone := one_pos p
  unfold log
  dsimp only
  obtain ⟨top, htop, htop'⟩ : ∃ top, top ≤ 2098 ∧
      (if 3 * 2 ^ n.log2 ≤ 2 * n then n.log2 + 1 else n.log2) = top :=
    ⟨_, by split <;> omega, rfl⟩
  rw [htop']
  generalize 2 ^ top = w
  have ht : Within (one p) (ofQuotient p ((n : Int) - (w : Nat)) (n + w)) := by
    apply within_ofQuotient (by omega)
    have hle : (((n : Int) - (w : Nat)).natAbs : Int) ≤ ((n + w : Nat) : Int) := by omega
    rw [Int.mul_comm (one p : Int)]
    exact mul_le_mul_of_nonneg_right hle hone.le
  have hscale : |(top : Int) - (1074 : Nat)| ≤ 1074 := by
    rw [abs_le]
    omega
  have hnonneg : 0 ≤ 2 * ((p + 2) * (one p : Int)) := by positivity
  refine (((within_logTwo p).scale _).add ((within_oddPowers ht).scale 2)).mono ?_
  have hfirst := mul_le_mul_of_nonneg_right hscale hnonneg
  have htwo : |(2 : Int)| = 2 := rfl
  rw [htwo]
  linarith

theorem div?_lo_bounds {a b c : Interval p} {r : Int} (ha : Within r a)
    (hlo : (one p : Int) ≤ 8 * b.lo) (hhi : (one p : Int) ≤ 8 * b.hi)
    (h : a.div? b = some c) : -(8 * r) ≤ c.lo ∧ c.lo ≤ 8 * r := by
  have hone := one_pos p
  have hpos : 0 < b.lo := by omega
  rw [div?, if_pos hpos, Option.some.injEq] at h
  have hr := ha.nonneg
  have hquot : ∀ d : Int, (one p : Int) ≤ 8 * d →
      -(8 * r) ≤ a.lo * one p / d ∧ a.lo * one p / d ≤ 8 * r := by
    intro d hd
    have hmul : r * one p ≤ 8 * r * d := by
      have := mul_le_mul_of_nonneg_left hd hr
      linarith
    have hlow := mul_le_mul_of_nonneg_right ha.neg_le_lo hone.le
    have hhigh := mul_le_mul_of_nonneg_right ha.lo_le hone.le
    exact ediv_within (by omega) (by linarith) (by linarith)
  rw [← h, divPos]
  dsimp only
  split
  · exact hquot _ hhi
  · exact hquot _ hlo

theorem log10?_lo_bounds {n : Nat} (hn : 0 < n) (hlog : n.log2 < 2098) {p : Nat} (hp : 8 ≤ p)
    {a : Interval p} (h : log10? n 1074 p = some a) :
    -(8 * (2150 * ((p + 2) * one p))) ≤ a.lo ∧ a.lo ≤ 8 * (2150 * ((p + 2) * one p)) :=
  div?_lo_bounds (within_log hn hlog p) (le_logTen hp).1 (le_logTen hp).2 h

end RegisterMachine.Interval
