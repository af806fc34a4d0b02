/-
# The leading bits of an integer

A logarithm of an unbounded integer is taken of its leading fifty-three bits. They are
what is left when the bits past the fifty-third are shifted out (`cutPlaces_eq_size_sub`,
`leadingBits_eq_shiftRight`), so with the places put back they are below the integer by
less than one place. If anything was shifted out the first of the fifty-three bits is
set, and then a place is at most one part in `2 ^ 52` of the integer. Fifty-three bits are
a double, so the conversion on the way to the logarithm loses nothing and never fails,
however large the integer is.

Key theorems: `leadingBits_mul_le`, `lt_leadingBits_add_one_mul`, `le_leadingBits`,
`abs_sub_leadingBits_mul_lt`, `toBinary64_leadingBits`, `gives_logarithm`,
`leadingBits_exact`.
-/
import RegisterMachine.Proofs.Coercion

namespace RegisterMachine

/-! ### The split of an integer -/

section Split

variable {n : ℤ}

theorem cutPlaces_eq_size_sub (n : ℤ) : cutPlaces n = n.natAbs.size - 53 := by
  rw [cutPlaces]
  by_cases hzero : n.natAbs = 0
  · simp [hzero]
  · have hlow : n.natAbs.log2 < n.natAbs.size := Nat.lt_size.2 (Nat.log2_self_le hzero)
    have hhigh : n.natAbs.size ≤ n.natAbs.log2 + 1 := Nat.size_le.2 Nat.lt_log2_self
    omega

theorem leadingBits_eq_div (n : ℤ) : leadingBits n = n / 2 ^ cutPlaces n := by
  rw [leadingBits]
  push_cast
  rfl

theorem leadingBits_eq_shiftRight (n : ℤ) : leadingBits n = n >>> cutPlaces n := by
  rw [leadingBits, Int.shiftRight_eq_div_pow]

theorem leadingBits_mul_le (n : ℤ) : leadingBits n * 2 ^ cutPlaces n ≤ n := by
  rw [leadingBits_eq_div]
  exact Int.ediv_mul_le n (by positivity)

theorem lt_leadingBits_add_one_mul (n : ℤ) : n < (leadingBits n + 1) * 2 ^ cutPlaces n := by
  rw [leadingBits_eq_div]
  exact Int.lt_ediv_add_one_mul_self n (by positivity)

theorem leadingBits_bounds (hn : 0 < n) : 0 < leadingBits n ∧ leadingBits n < 2 ^ 53 := by
  obtain ⟨k, hk, hpos, hlt⟩ := exists_leadingBits_eq hn
  rw [hk]
  exact ⟨by exact_mod_cast hpos, by exact_mod_cast hlt⟩

/-- **Where something is cut off there are fifty-three leading bits,** the first of them
set. -/
theorem le_leadingBits (hn : 0 < n) (hcut : 0 < cutPlaces n) : 2 ^ 52 ≤ leadingBits n := by
  have hlog : n.natAbs.log2 = 52 + cutPlaces n := by
    rw [cutPlaces] at hcut ⊢
    omega
  have hself : 2 ^ 52 * 2 ^ cutPlaces n ≤ n.natAbs := by
    rw [← pow_add, ← hlog]
    exact Nat.log2_self_le (by omega)
  have hle : ((2 ^ 52 * 2 ^ cutPlaces n : ℕ) : ℤ) ≤ n := by omega
  rw [leadingBits_eq_div, Int.le_ediv_iff_mul_le (by positivity)]
  exact_mod_cast hle

/-- Less is cut off than one part in `2 ^ 52` of the integer. -/
theorem sub_leadingBits_mul_lt (hn : 0 < n) :
    (n - leadingBits n * 2 ^ cutPlaces n) * 2 ^ 52 < n := by
  have hle := leadingBits_mul_le n
  have hlt := lt_leadingBits_add_one_mul n
  -- Only where something is cut off is the first of the fifty-three bits known to be set.
  rcases Nat.eq_zero_or_pos (cutPlaces n) with hcut | hcut
  · rw [hcut] at hle hlt ⊢
    omega
  · calc (n - leadingBits n * 2 ^ cutPlaces n) * 2 ^ 52
        < 2 ^ cutPlaces n * 2 ^ 52 := by
          apply mul_lt_mul_of_pos_right _ (by norm_num)
          linarith
      _ = 2 ^ 52 * 2 ^ cutPlaces n := mul_comm _ _
      _ ≤ leadingBits n * 2 ^ cutPlaces n :=
          mul_le_mul_of_nonneg_right (le_leadingBits hn hcut) (by positivity)
      _ ≤ n := hle

/-- **The leading bits are off the integer by less than `2 ^ (-52)` of it.** -/
theorem abs_sub_leadingBits_mul_lt (hn : 0 < n) :
    |(n : ℚ) - leadingBits n * 2 ^ cutPlaces n| < n * 2 ^ (-52 : ℤ) := by
  have hcast : (n : ℚ) - leadingBits n * 2 ^ cutPlaces n =
      ((n - leadingBits n * 2 ^ cutPlaces n : ℤ) : ℚ) := by
    push_cast
    rfl
  have hnonneg : (0 : ℚ) ≤ ((n - leadingBits n * 2 ^ cutPlaces n : ℤ) : ℚ) := by
    exact_mod_cast sub_nonneg.2 (leadingBits_mul_le n)
  rw [hcast, abs_of_nonneg hnonneg, zpow_neg, ← div_eq_mul_inv, lt_div_iff₀ (by positivity)]
  exact_mod_cast sub_leadingBits_mul_lt hn

/-- **The leading bits are a double, exactly.** -/
theorem toBinary64_leadingBits (hn : 0 < n) :
    (Value.big (leadingBits n)).toBinary64 = .ok (.ofInt (leadingBits n)) ∧
      (Binary64.ofInt (leadingBits n)).isFinite = true ∧
      (Binary64.ofInt (leadingBits n)).value = leadingBits n := by
  have hbounds := leadingBits_bounds hn
  have hoverflow : 2 ^ 53 < integerOverflow := by decide +kernel
  obtain ⟨hfinite, hvalue⟩ := Binary64.value_ofInt (n := leadingBits n) (by omega)
  exact ⟨Value.toBinary64_of_lt rfl (by omega), hfinite, hvalue⟩

end Split

/-! ### The logarithms -/

/-- **A logarithm of a positive unbounded integer is given, whatever its size.** -/
theorem gives_logarithm {n : ℤ} (hn : 0 < n) {op : Operation} (hlog : op.IsLogarithm) {v : Value}
    (hcompute : op.compute [.big n] = .ok v) : op.Gives [.big n] v := by
  have hcheck : Domain.positive.check op [.big n] = .ok () := by
    rw [check_positive_of_exactInt? op (x := .big n) rfl, decide_eq_true hn]
    rfl
  refine Operation.gives_iff_compute.2 ⟨?_, ?_, hcompute⟩
  · rcases hlog with rfl | rfl <;> exact List.mem_cons_self
  · rcases hlog with rfl | rfl <;> exact hcheck

/-- **The split that the logarithms of unbounded integers start from is exact.** With as
many places cut off a positive integer as it has bits past the fifty-third, the bits that
are left bound it from below and above to one place; they are a positive number below
`2 ^ 53`, and at least `2 ^ 52` if a place was cut off, so that less than one part in
`2 ^ 52` of the integer is lost. They are the value of a double, the conversion to it does
not fail, and of this double both logarithms are taken: called by name on the integer, they
always answer. -/
theorem leadingBits_exact {n : ℤ} (hn : 0 < n) :
    (cutPlaces n = n.natAbs.size - 53 ∧ leadingBits n = n >>> cutPlaces n) ∧
    (leadingBits n * 2 ^ cutPlaces n ≤ n ∧ n < (leadingBits n + 1) * 2 ^ cutPlaces n) ∧
    (0 < leadingBits n ∧ leadingBits n < 2 ^ 53 ∧
      (0 < cutPlaces n → 2 ^ 52 ≤ leadingBits n)) ∧
    |(n : ℚ) - leadingBits n * 2 ^ cutPlaces n| < n * 2 ^ (-52 : ℤ) ∧
    ∃ x : Binary64, (Value.big (leadingBits n)).toBinary64 = .ok x ∧
      x.isFinite = true ∧ x.value = leadingBits n ∧
      Operation.log.Gives [.big n]
        (.float (x.log.add ((Binary64.ofInt (cutPlaces n)).mul logTwo))) ∧
      Operation.log10.Gives [.big n]
        (.float (x.log10.add ((Binary64.ofInt (cutPlaces n)).mul logTenOfTwo))) := by
  obtain ⟨hpos, hlt⟩ := leadingBits_bounds hn
  obtain ⟨hx, hfinite, hvalue⟩ := toBinary64_leadingBits hn
  exact ⟨⟨cutPlaces_eq_size_sub n, leadingBits_eq_shiftRight n⟩,
    ⟨leadingBits_mul_le n, lt_leadingBits_add_one_mul n⟩, ⟨hpos, hlt, le_leadingBits hn⟩,
    abs_sub_leadingBits_mul_lt hn, .ofInt (leadingBits n), hx, hfinite, hvalue,
    gives_logarithm hn (.inl rfl) rfl, gives_logarithm hn (.inr rfl) rfl⟩

/-- Eleven hundred bits that are all set: rounding them to fifty-three would carry into the
next bit, and the integer is past the doubles. -/
theorem leadingBits_exact_all_set :
    (0 : ℤ) < 2 ^ 1100 - 1 ∧ cutPlaces (2 ^ 1100 - 1) = 1047 ∧
      leadingBits (2 ^ 1100 - 1) = 2 ^ 53 - 1 ∧
      ∃ x : Binary64, (Value.big (2 ^ 53 - 1)).toBinary64 = .ok x ∧ x.value = 2 ^ 53 - 1 ∧
        evaluate "Log" [.big (2 ^ 1100 - 1)] 1 =
          .ok (.float (x.log.add ((Binary64.ofInt 1047).mul logTwo))) := by
  have hn : (0 : ℤ) < 2 ^ 1100 - 1 := by decide +kernel
  have hcut : cutPlaces (2 ^ 1100 - 1) = 1047 := by decide +kernel
  have hleading : leadingBits (2 ^ 1100 - 1) = 2 ^ 53 - 1 := by decide +kernel
  obtain ⟨-, -, -, -, x, hx, -, hvalue, hgives, -⟩ := leadingBits_exact hn
  rw [hleading] at hx hvalue
  rw [hcut, Nat.cast_ofNat] at hgives
  refine ⟨hn, hcut, hleading, x, hx, by rw [hvalue]; norm_num, ?_⟩
  exact hgives.2 "Log" 1 ⟨by decide +kernel, by decide⟩

end RegisterMachine
