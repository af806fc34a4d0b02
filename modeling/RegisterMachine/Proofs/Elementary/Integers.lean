/-
# Logarithms of integers are not negative

An integer above one has a logarithm of at least that of two, so the intervals
that enclose it lie above zero, and the double that is settled carries no minus
sign: it is never negative zero. The bounds of whole series are too wide for
this. A series whose terms at least quarter from one to the next is its first
term up to a small part of one (`sub_le_lo_oddPowers`), and the logarithm of two
is then above 49/100 while the series of the other factor is within 44/100.

Key theorems: `Interval.within_series_of_quarter`,
`Interval.sub_le_lo_oddPowers`, `Interval.log_lo_nonneg`,
`Binary64.exists_log_ofInt_eq`, `Binary64.exists_log10_ofInt_eq`.
-/
import RegisterMachine.Proofs.Elementary.Logarithm

namespace RegisterMachine

namespace Interval

variable {p : Nat}

/-! ### Series whose terms quarter -/

/-- A series whose terms quarter, up to one step, is within twice its first term
and two steps for each unit of fuel. -/
theorem within_series_of_quarter {w f : Nat → Interval p → Interval p}
    (hw : ∀ k r a, Within r a → Within r (w k a))
    (hf : ∀ k r a, Within r a → Within (r / 4 + 1) (f k a)) (fuel k : Nat) {r : Int}
    {t : Interval p} (h : Within r t) : Within (2 * r + 2 * fuel) (series w f fuel k t) := by
  induction fuel generalizing k r t with
  | zero => exact h.rest.mono (by omega)
  | succ fuel ih =>
    have hr := h.nonneg
    rw [series]
    split
    · exact h.rest.mono (by omega)
    · have hterms := (hw k r t h).add (ih (k + 1) (hf k r t h))
      exact hterms.mono (by push_cast; omega)

theorem Within.mul_quarter {r s : Int} {a b : Interval p} (ha : Within r a) (hb : Within s b)
    (hs : 4 * s ≤ one p) : Within (r / 4 + 1) (a.mul b) := by
  refine ha.mul hb ?_
  have hr := ha.nonneg
  have hone := one_pos p
  have hlt : r ≤ 4 * (r / 4 + 1) := by omega
  have hrs := mul_le_mul_of_nonneg_left hs hr
  have hro := mul_le_mul_of_nonneg_right hlt hone.le
  linarith

/-- The sum of the odd powers of a number is not less than the number by more
than twice its cube, if its square is at most a quarter. -/
theorem sub_le_lo_oddPowers {t : Interval p} {r s m : Int} (hp : 2 ≤ p) (ht : Within r t)
    (hs : r * r ≤ s * one p) (hs' : 4 * s ≤ one p) (hm : r * s ≤ m * one p) :
    t.lo - (2 * m + 2 * p) ≤ (oddPowers false t).lo := by
  obtain ⟨fuel, rfl⟩ : ∃ fuel, p = fuel + 1 := ⟨p - 1, by omega⟩
  have hsquare : Within s (t.mul t) := ht.mul ht hs
  have hcube : Within m (t.mul (t.mul t)) := ht.mul hsquare hm
  have hrest := within_series_of_quarter (w := fun k u => u.divNat (2 * k + 1))
    (f := fun _ u => u.mul (t.mul t)) (fun _ _ _ ha => ha.divNat (by omega))
    (fun _ _ _ ha => ha.mul_quarter hsquare hs') fuel 1 hcube
  have hodd : oddPowers false t = if t.radius ≤ 1 then t.rest else
      (t.divNat 1).add (series (fun k u => u.divNat (2 * k + 1)) (fun _ u => u.mul (t.mul t))
        fuel 1 (t.mul (t.mul t))) := rfl
  have hm' := hcube.nonneg
  rw [hodd]
  split
  · rename_i hsmall
    have hlo := (within_radius t).lo_le
    simp only [rest]
    omega
  · have hfirst : (t.divNat 1).lo = t.lo := by simp [Interval.divNat]
    have hlow := hrest.neg_le_lo
    simp only [Interval.add, hfirst]
    push_cast
    omega

/-! ### The two parts of a logarithm -/

theorem mul_places_le (hp : 128 ≤ p) : 2 ^ 14 * (p : Int) ≤ one p := by
  have hlt : p - 16 < 2 ^ (p - 16) := Nat.lt_two_pow_self
  have hone : one p = 2 ^ 16 * 2 ^ (p - 16) := by
    rw [one, ← Nat.pow_add]
    congr 1
    omega
  omega

/-- The product of an `a`-th and a `b`-th, rounded up, is at most a `c`-th, rounded
down, if one has steps enough. -/
theorem mul_le_ediv_mul {w r s a b c : Int} (hw : 0 < w) (ha : 0 < a) (hb : 0 < b) (hc : 0 < c)
    (hs : 0 ≤ s) (hra : a * r ≤ w + a) (hsb : b * s ≤ w + b)
    (hsteps : c * ((w + a) * (w + b)) ≤ a * b * ((w - c) * w)) : r * s ≤ w / c * w := by
  have hfactors : a * r * (b * s) ≤ (w + a) * (w + b) :=
    mul_le_mul hra hsb (by positivity) (by omega)
  have hdown : w - c ≤ c * (w / c) := by
    have hdiv := Int.mul_ediv_add_emod w c
    have hmod := Int.emod_lt_of_pos w hc
    omega
  have hpos : 0 < a * b * c := by positivity
  refine le_of_mul_le_mul_left ?_ hpos
  calc a * b * c * (r * s) = c * (a * r * (b * s)) := by ring
    _ ≤ c * ((w + a) * (w + b)) := mul_le_mul_of_nonneg_left hfactors hc.le
    _ ≤ a * b * ((w - c) * w) := hsteps
    _ ≤ a * b * (c * (w / c) * w) := by
        have hmul := mul_le_mul_of_nonneg_right hdown hw.le
        exact mul_le_mul_of_nonneg_left hmul (by positivity)
    _ = a * b * c * (w / c * w) := by ring

theorem le_logTwo (hp : 128 ≤ p) : 49 * (one p : Int) ≤ 100 * (logTwo p).lo := by
  have hplaces := mul_places_le hp
  have hthird : Within ((one p : Int) / 3 + 1) (ofQuotient p 1 3) := by
    apply within_ofQuotient (by omega)
    rw [Int.natAbs_one]
    push_cast
    omega
  have hsquare : ((one p : Int) / 3 + 1) * (one p / 3 + 1) ≤ one p / 8 * one p :=
    mul_le_ediv_mul (a := 3) (b := 3) (by omega) (by omega) (by omega) (by omega) (by omega)
      (by omega) (by omega) (by nlinarith)
  have hcube : ((one p : Int) / 3 + 1) * (one p / 8) ≤ one p / 23 * one p :=
    mul_le_ediv_mul (a := 3) (b := 8) (by omega) (by omega) (by omega) (by omega) (by omega)
      (by omega) (by omega) (by nlinarith)
  have hodd := sub_le_lo_oddPowers (by omega) hthird hsquare (by omega) hcube
  have hlo : (ofQuotient p 1 3).lo = (one p : Int) / 3 := by simp [ofQuotient]
  have hlogTwo : (logTwo p).lo = 2 * (oddPowers false (ofQuotient p 1 3)).lo := rfl
  rw [hlogTwo]
  omega

theorem neg_le_lo_oddPowers (hp : 128 ≤ p) {t : Interval p}
    (ht : Within ((one p : Int) / 5 + 1) t) :
    -(45 * (one p : Int)) ≤ 100 * (2 * (oddPowers false t).lo) := by
  have hplaces := mul_places_le hp
  have hsquare : ((one p : Int) / 5 + 1) * (one p / 5 + 1) ≤ one p / 20 * one p :=
    mul_le_ediv_mul (a := 5) (b := 5) (by omega) (by omega) (by omega) (by omega) (by omega)
      (by omega) (by omega) (by nlinarith)
  have hcube : ((one p : Int) / 5 + 1) * (one p / 20) ≤ one p / 90 * one p :=
    mul_le_ediv_mul (a := 5) (b := 20) (by omega) (by omega) (by omega) (by omega) (by omega)
      (by omega) (by omega) (by nlinarith)
  have hodd := sub_le_lo_oddPowers (by omega) ht hsquare (by omega) hcube
  have hlow := ht.neg_le_lo
  omega

/-- The power of two that is split off is above one for an integer above one, and
the other factor is within a fifth of it, as a quotient of difference and sum. -/
theorem split_integer {k : Nat} (hk : 2 ≤ k) : ∃ top, 1074 < top ∧
    5 * ((k * Binary64.unit : Nat) - (2 ^ top : Nat) : Int).natAbs ≤
      k * Binary64.unit + 2 ^ top ∧
    (if 3 * 2 ^ (k * Binary64.unit).log2 ≤ 2 * (k * Binary64.unit)
      then (k * Binary64.unit).log2 + 1 else (k * Binary64.unit).log2) = top := by
  have hne : k * Binary64.unit ≠ 0 := Nat.mul_ne_zero (by omega) (Nat.ne_of_gt Binary64.unit_pos)
  have htop : 1074 < (k * Binary64.unit).log2 := by
    rw [← Nat.add_one_le_iff, Nat.le_log2 hne]
    refine Nat.le_trans ?_ (Nat.mul_le_mul_right _ hk)
    decide +kernel
  have hlow := Nat.log2_self_le hne
  have hhigh := Nat.lt_log2_self (n := k * Binary64.unit)
  rw [Nat.pow_succ] at hhigh
  generalize k * Binary64.unit = n at *
  split
  · rename_i hhalf
    refine ⟨n.log2 + 1, by omega, ?_, rfl⟩
    rw [Nat.pow_succ]
    omega
  · rename_i hhalf
    exact ⟨n.log2, htop, by omega, rfl⟩

theorem within_fifth {n : Int} {d : Nat} (hd : 0 < d) (h : 5 * n.natAbs ≤ d) :
    Within ((one p : Int) / 5 + 1) (ofQuotient p n d) := by
  apply within_ofQuotient hd
  have hfifth : (one p : Int) ≤ 5 * (one p / 5 + 1) := by omega
  calc (n.natAbs : Int) * one p ≤ n.natAbs * (5 * (one p / 5 + 1)) :=
        mul_le_mul_of_nonneg_left hfifth (Int.natCast_nonneg _)
    _ = (one p / 5 + 1) * (5 * n.natAbs : Nat) := by push_cast; ring
    _ ≤ (one p / 5 + 1) * d := mul_le_mul_of_nonneg_left (by exact_mod_cast h) (by omega)

/-- **The logarithm of an integer above one is enclosed above zero.** -/
theorem log_lo_nonneg (hp : 128 ≤ p) {k : Nat} (hk : 2 ≤ k) :
    0 ≤ (log (k * Binary64.unit) 1074 p).lo := by
  obtain ⟨top, htop, hfifth, heq⟩ := split_integer hk
  have hsum : 0 < k * Binary64.unit + 2 ^ top := Nat.add_pos_right _ (Nat.two_pow_pos top)
  have hodd := neg_le_lo_oddPowers hp (within_fifth hsum hfifth)
  have hlogTwo := le_logTwo hp
  have hone := one_pos p
  have hscale : (logTwo p).lo ≤ ((logTwo p).scale ((top : Int) - (1074 : Nat))).lo := by
    rw [scale, if_pos (by omega)]
    exact le_mul_of_one_le_left (by omega) (by omega)
  have htwo : ∀ a : Interval p, (a.scale 2).lo = 2 * a.lo := fun _ => rfl
  unfold log
  dsimp only
  rw [heq, add, htwo]
  dsimp only
  omega

theorem log10?_lo_nonneg (hp : 128 ≤ p) {k : Nat} (hk : 2 ≤ k) {a : Interval p}
    (h : log10? (k * Binary64.unit) 1074 p = some a) : 0 ≤ a.lo := by
  have hlog := log_lo_nonneg hp hk
  obtain ⟨hten, hten'⟩ := le_logTen (p := p) (by omega)
  have hone := one_pos p
  have hpos : 0 < (logTen p).lo := by omega
  rw [log10?, div?, if_pos hpos, Option.some.injEq] at h
  rw [← h, divPos]
  dsimp only
  rw [if_pos hlog]
  exact Int.ediv_nonneg (mul_nonneg hlog hone.le) (by omega)

end Interval

/-! ### The doubles that are settled -/

/-- What is enclosed above zero is settled as a double without a minus sign. -/
theorem exists_nearestReal_eq {enclose : (p : Nat) → Option (Interval p)}
    (h : ∀ (p : Nat) (a : Interval p), 128 ≤ p → enclose p = some a → 0 ≤ a.lo) :
    ∃ m, nearestReal enclose = .finite false m := by
  obtain ⟨q, z, hq, -, hz, hlo⟩ := settle_eq enclose 6 128
  have hpos : ¬ z < 0 := by
    rcases hlo with rfl | ⟨a, ha, rfl⟩
    · exact Int.lt_irrefl 0
    · exact Int.not_lt.2 (h q a hq ha)
  unfold nearestReal
  rw [hz, nearestDyadic, Binary64.nearestFinite, decide_eq_false hpos]
  exact ⟨_, rfl⟩

namespace Binary64

theorem exists_logWith_ofInt_eq {enclose : Nat → (p : Nat) → Option (Interval p)} {k : Nat}
    (hk : 0 < k) (hk' : k ≤ 2 ^ 53)
    (h : 2 ≤ k → ∀ (p : Nat) (a : Interval p), 128 ≤ p → enclose (k * unit) p = some a →
      0 ≤ a.lo) : ∃ m, logWith enclose (.ofInt k) = .finite false m := by
  obtain ⟨m, hm, hq⟩ := exists_ofInt_eq hk'
  have hne : m.ordinal ≠ 0 := by
    intro hzero
    have hpos := Nat.mul_pos hk unit_pos
    rw [← hq, m.quanta_eq, hzero, ordinalQuanta_zero] at hpos
    exact Nat.lt_irrefl 0 hpos
  rw [hm, logWith, if_neg hne, if_neg Bool.false_ne_true, hq]
  split
  · exact ⟨.zero, rfl⟩
  · rename_i hunit
    have htwo : 2 ≤ k := by
      by_contra hlt
      obtain rfl : k = 1 := by omega
      exact hunit (Nat.one_mul unit)
    exact exists_nearestReal_eq (h htwo)

/-- **The natural logarithm of a positive integer is no negative zero.** -/
theorem exists_log_ofInt_eq {k : Nat} (hk : 0 < k) (hk' : k ≤ 2 ^ 53) :
    ∃ m, log (.ofInt k) = .finite false m := by
  refine exists_logWith_ofInt_eq hk hk' fun htwo p a hp ha => ?_
  obtain rfl := Option.some.inj ha
  exact Interval.log_lo_nonneg hp htwo

theorem exists_log10_ofInt_eq {k : Nat} (hk : 0 < k) (hk' : k ≤ 2 ^ 53) :
    ∃ m, log10 (.ofInt k) = .finite false m :=
  exists_logWith_ofInt_eq hk hk' fun htwo _ _ hp ha => Interval.log10?_lo_nonneg hp htwo ha

end Binary64

end RegisterMachine
