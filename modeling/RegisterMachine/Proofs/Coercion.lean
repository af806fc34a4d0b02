/-
# Integers as doubles and doubles as integers

An integer is taken to the double nearest to it, whichever its encoding is, and is
refused from `2 ^ 1024 - 2 ^ 970` on, where that double would be infinite. The
other way only a finite double without a fraction is taken to an integer, which
is its value. Up to `2 ^ 53` an integer is the value of its double and comes back,
and a double that is an integer always comes back; negative zero comes back as
zero, the double of the integer 0.

Key theorems: `Binary64.isNearest_ofInt`, `Binary64.ofInt_mono`,
`Binary64.ofInt_of_value_eq`, `Binary64.value_ofInt`,
`integers_and_doubles`.
-/
import RegisterMachine.Proofs.Divisors
import RegisterMachine.Proofs.RoundingLaws

namespace RegisterMachine

namespace Binary64

variable {n m : ℤ}

theorem isNearest_ofInt (n : ℤ) : (ofInt n).IsNearest n := by
  have h := isNearest_multiple (n < 0) n.natAbs 0
  rw [Int.toNat_zero, Int.neg_zero, Int.toNat_zero, Nat.pow_zero, Nat.mul_one, zpow_zero, mul_one,
    signed_natAbs] at h
  exact h

theorem isNegative_ofInt (n : ℤ) : (ofInt n).isNegative = decide (n < 0) :=
  isNegative_nearest _ _ _

theorem ofInt_mono (h : n ≤ m) : (ofInt n).le (ofInt m) = true := by
  have hmono : Monotone fun a => min (nearestOrdinal (a * unit) 1) ordinalBound := by
    intro a b hab
    refine min_le_min_right _ (nearestOrdinal_mono Nat.one_pos Nat.one_pos ?_)
    gcongr
  have hzero : min (nearestOrdinal (0 * unit) 1) ordinalBound = 0 := by simp
  rw [← signed_natAbs n, ← signed_natAbs m] at h
  rw [le, ofInt, ofInt, rank?_nearest, rank?_nearest, decide_eq_true_iff]
  exact signed_le_signed hmono hzero h

/-- **The double of the value of a double is the double,** a zero without its sign. -/
theorem ofInt_of_value_eq {x : Binary64} (hx : x.isFinite = true) (hvalue : x.value = n) :
    ofInt n = if n = 0 then .zero else x := by
  match x, hx with
  | .finite negative k, _ =>
    obtain ⟨hquanta, hsign⟩ := quanta_of_value_eq hvalue
    split
    · rename_i hn
      rw [hn, ofInt_zero]
    · rename_i hn
      have hself := nearest_quanta negative k Nat.one_pos
      rw [Nat.mul_one, hquanta, nearest_eq_ofInt negative (Int.natAbs_ne_zero.2 hn), hsign] at hself
      exact hself

theorem value_ofInt (h : n.natAbs ≤ 2 ^ 53) : (ofInt n).isFinite = true ∧ (ofInt n).value = n := by
  obtain ⟨k, hk⟩ := exists_quanta_eq_units h
  have hself := nearest_quanta (n < 0) k Nat.one_pos
  rw [Nat.mul_one, hk] at hself
  rw [ofInt, hself]
  refine ⟨rfl, value_eq_intCast_iff.2 ?_⟩
  rw [hk, signed_mul, signed_natAbs]

end Binary64

namespace Value

variable {v : Value} {n : ℤ}

/-- Both encodings of an integer are taken to its double, or refused, alike. -/
theorem toBinary64_of_exactInt? (h : v.exactInt? = some n) :
    v.toBinary64 = if (Binary64.ofInt n).isFinite then .ok (.ofInt n) else .error .tooLarge := by
  rw [← toBinary64_fold, fold_eq_of_exactInt? h, toBinary64_ofInt]

theorem toBinary64_of_lt (h : v.exactInt? = some n) (hlt : n.natAbs < integerOverflow) :
    v.toBinary64 = .ok (.ofInt n) := by
  rw [toBinary64_of_exactInt? h, if_pos ((Binary64.isFinite_ofInt_iff n).2 hlt)]

/-- **An integer is too large exactly from the overflow on.** -/
theorem toBinary64_eq_tooLarge_iff (h : v.exactInt? = some n) :
    v.toBinary64 = .error .tooLarge ↔ integerOverflow ≤ n.natAbs := by
  rw [toBinary64_of_exactInt? h, ← not_lt, ← Binary64.isFinite_ofInt_iff]
  split
  · rename_i hfinite
    simp [hfinite]
  · rename_i hover
    exact iff_of_true rfl hover

theorem eq_ofInt_of_toBinary64 {x : Binary64} (h : v.exactInt? = some n)
    (hx : v.toBinary64 = .ok x) : x = .ofInt n := by
  rw [toBinary64_of_exactInt? h] at hx
  split at hx
  · exact (Except.ok.inj hx).symm
  · cases hx

theorem toInteger_float {x : Binary64} (hx : x.isFinite = true) (hvalue : x.value = n) :
    (float x).toInteger = .ok n :=
  toInteger_eq_ok_iff.2 (.inr ⟨x, rfl, hx, hvalue⟩)

theorem toInteger_of_not_denotes (h : ∀ n, ¬ v.Denotes n) :
    v.toInteger = .error (.notInteger v.text) := by
  cases v with
  | small w => exact absurd (.inl rfl) (h w.val)
  | big n => exact absurd (.inl rfl) (h n)
  | complex z => rfl
  | float x =>
    have hnone : x.toInt? = none := by
      cases hx : x.toInt? with
      | none => rfl
      | some n => exact absurd (.inr ⟨x, rfl, Binary64.toInt?_eq_some_iff.1 hx⟩) (h n)
    rw [toInteger, hnone]

end Value

open Value in
/-- **Integers and doubles are taken to each other exactly where they can be.** Both
encodings of an integer below `2 ^ 1024 - 2 ^ 970` are taken to the one nearest
double, a tie going to the even mantissa, in the order of the integers; from there
on both are refused as too large. A finite double whose value is an integer is taken
to it and comes back, a zero without its sign; every other double and every complex
number is refused. An integer up to `2 ^ 53` comes back from its double. -/
theorem integers_and_doubles :
    (∀ n : ℤ, n.natAbs < integerOverflow → ∃ x : Binary64, x.isFinite = true ∧ x.IsNearest n ∧
      x.isNegative = decide (n < 0) ∧ ∀ v : Value, v.exactInt? = some n → v.toBinary64 = .ok x) ∧
    (∀ (v : Value) (n : ℤ), v.exactInt? = some n →
      (v.toBinary64 = .error .tooLarge ↔ integerOverflow ≤ n.natAbs)) ∧
    (∀ (v w : Value) (n m : ℤ) (x y : Binary64), v.exactInt? = some n → w.exactInt? = some m →
      n ≤ m → v.toBinary64 = .ok x → w.toBinary64 = .ok y → x.le y = true) ∧
    (∀ (x : Binary64) (n : ℤ), x.isFinite = true → x.value = n →
      (float x).toInteger = .ok n ∧
      ∀ v : Value, v.exactInt? = some n → v.toBinary64 = .ok (if n = 0 then .zero else x)) ∧
    (∀ x : Binary64, (¬ ∃ n : ℤ, x.isFinite = true ∧ x.value = n) →
      (float x).toInteger = .error (.notInteger (float x).text)) ∧
    (∀ z : ComplexNumber, (complex z).toInteger = .error (.notInteger (complex z).text)) ∧
    ∀ (v : Value) (n : ℤ), v.exactInt? = some n → n.natAbs ≤ 2 ^ 53 →
      ∃ x : Binary64, v.toBinary64 = .ok x ∧ (float x).toInteger = .ok n := by
  refine ⟨fun n hlt => ⟨.ofInt n, (Binary64.isFinite_ofInt_iff n).2 hlt, Binary64.isNearest_ofInt n,
    Binary64.isNegative_ofInt n, fun v hv => toBinary64_of_lt hv hlt⟩,
    fun v n hv => toBinary64_eq_tooLarge_iff hv, ?_, ?_, ?_, fun z => rfl, ?_⟩
  · intro v w n m x y hv hw hle hx hy
    rw [eq_ofInt_of_toBinary64 hv hx, eq_ofInt_of_toBinary64 hw hy]
    exact Binary64.ofInt_mono hle
  · intro x n hx hvalue
    refine ⟨toInteger_float hx hvalue, fun v hv => ?_⟩
    rw [toBinary64_of_exactInt? hv, Binary64.ofInt_of_value_eq hx hvalue]
    have hfinite : (if n = 0 then .zero else x).isFinite = true := by
      split
      · rfl
      · exact hx
    rw [if_pos hfinite]
  · intro x hnone
    apply toInteger_of_not_denotes
    rintro n (hexact | ⟨y, heq, hy, hvalue⟩)
    · cases hexact
    · cases heq
      exact hnone ⟨n, hy, hvalue⟩
  · intro v n hv hle
    have hbound : 2 ^ 53 < integerOverflow := by decide +kernel
    obtain ⟨hfinite, hvalue⟩ := Binary64.value_ofInt hle
    exact ⟨.ofInt n, toBinary64_of_lt hv (Nat.lt_of_le_of_lt hle hbound),
      toInteger_float hfinite hvalue⟩

open Value in
/-- The last integer that is taken to a double and the first one that is not, two integers
in their order, negative zero, NaN and the last integer of which it is said that it
comes back. -/
theorem integers_and_doubles_at_bounds :
    (∃ x : Binary64, x.isFinite = true ∧ x.IsNearest ((integerOverflow - 1 : ℤ) : ℚ) ∧
      (big (integerOverflow - 1)).toBinary64 = .ok x) ∧
    (big (-integerOverflow)).toBinary64 = .error .tooLarge ∧
    (Binary64.ofInt (2 ^ 53)).le (.ofInt (2 ^ 53 + 1)) = true ∧
    ((float (.finite true .zero)).toInteger = .ok 0 ∧ (big 0).toBinary64 = .ok .zero) ∧
    (float .nan).toInteger = .error (.notInteger (float .nan).text) ∧
    ∃ x : Binary64, (big (-2 ^ 53)).toBinary64 = .ok x ∧ (float x).toInteger = .ok (-2 ^ 53) := by
  obtain ⟨hnearest, hlarge, hmono, hback, hother, -, hexact⟩ := integers_and_doubles
  refine ⟨?_, ?_, ?_, ?_, ?_, ?_⟩
  · obtain ⟨x, hfinite, hx, -, hall⟩ := hnearest (integerOverflow - 1) (by decide +kernel)
    exact ⟨x, hfinite, hx, hall _ rfl⟩
  · exact (hlarge (big (-integerOverflow)) _ rfl).2 (by decide +kernel)
  · exact hmono (big (2 ^ 53)) (big (2 ^ 53 + 1)) _ _ _ _ rfl rfl (by decide) (by decide +kernel)
      (by decide +kernel)
  · have hzero := hback (.finite true .zero) 0 rfl
      (Binary64.value_eq_intCast_iff.2 (by decide +kernel))
    exact ⟨hzero.1, hzero.2 (big 0) rfl⟩
  · refine hother .nan ?_
    rintro ⟨n, ⟨⟩, -⟩
  · exact hexact (big (-2 ^ 53)) _ rfl (by decide)

end RegisterMachine
