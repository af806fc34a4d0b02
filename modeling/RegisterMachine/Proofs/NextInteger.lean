/-
# The integers next to a double

Floor, ceiling and the nearest integer are exact for every finite double. Floor is
the greatest integer that is not above the value, and ceiling, the opposite of
the floor of the opposite number, is the least one that is not below it
(`Binary64.isGreatest_wholeDown`, `Binary64.isLeast_wholeUp`). Every whole number
less than a unit away from the value is between the two
(`Binary64.IsNext.between`), the nearest one among them.

Key theorems: `Binary64.IsNext.between`, `Binary64.isGreatest_wholeDown`,
`Binary64.isLeast_wholeUp`, `evaluate_toWhole`, `evaluate_floor_ceil_round`.
-/
import RegisterMachine.Proofs.Binary64.Order
import RegisterMachine.Proofs.Rounding

namespace RegisterMachine

namespace Binary64

/-! ### Between floor and ceiling -/

/-- What goes up is the opposite of what goes down from the opposite number. -/
theorem signed_wholeUp (negative : Bool) (n : ℕ) :
    signed negative (wholeUp negative n) = -signed (!negative) (wholeDown (!negative) n) := by
  rw [wholeUp, signed_not, Int.neg_neg]

theorem wholeUp_bounds (negative : Bool) (n : ℕ) :
    signed negative n ≤ signed negative (wholeUp negative n) * unit ∧
      (signed negative (wholeUp negative n) - 1) * unit < signed negative n := by
  have hdown := wholeDown_bounds (!negative) n
  rw [signed_not negative n] at hdown
  rw [signed_wholeUp]
  generalize signed (!negative) (wholeDown (!negative) n) = w at hdown
  have hcomm : (-w - 1) * (unit : ℤ) = -((w + 1) * unit) := by ring
  rw [hcomm, Int.neg_mul]
  omega

theorem lt_of_mul_unit_lt {j k : ℤ} (h : j * unit < k * unit) : j < k :=
  lt_of_mul_lt_mul_right h (Int.natCast_nonneg unit)

/-- **Every whole number next to a number is between its floor and its ceiling.** -/
theorem IsNext.between {whole : Bool → ℕ → ℕ} (hwhole : IsNext whole) (negative : Bool) (n : ℕ) :
    signed negative (wholeDown negative n) ≤ signed negative (whole negative n) ∧
      signed negative (whole negative n) ≤ signed negative (wholeUp negative n) := by
  have hdown := (wholeDown_bounds negative n).1
  have hup := (wholeUp_bounds negative n).1
  have hnext : signed negative n - unit < signed negative (whole negative n) * unit ∧
      signed negative (whole negative n) * unit < signed negative n + unit := by
    have h := hwhole negative n
    rw [← signed_mul]
    cases negative <;> simp only [signed_false, signed_true] <;> omega
  constructor
  · refine Int.lt_add_one_iff.1 (lt_of_mul_unit_lt ?_)
    rw [Int.add_mul]
    omega
  · refine Int.lt_add_one_iff.1 (lt_of_mul_unit_lt ?_)
    rw [Int.add_mul]
    omega

/-- **The floor is the greatest integer that is not above the value.** -/
theorem isGreatest_wholeDown (negative : Bool) (m : Magnitude) :
    IsGreatest {k : ℤ | (k : ℚ) ≤ (finite negative m).value}
      (signed negative (wholeDown negative m.quanta)) := by
  have hbounds := wholeDown_bounds negative m.quanta
  constructor
  · exact intCast_le_value_iff.2 hbounds.1
  · intro k hk
    have hle := intCast_le_value_iff.1 hk
    exact Int.lt_add_one_iff.1 (lt_of_mul_unit_lt (lt_of_le_of_lt hle hbounds.2))

/-- **The ceiling is the least integer that is not below the value.** -/
theorem isLeast_wholeUp (negative : Bool) (m : Magnitude) :
    IsLeast {k : ℤ | (finite negative m).value ≤ k}
      (signed negative (wholeUp negative m.quanta)) := by
  have hbounds := wholeUp_bounds negative m.quanta
  constructor
  · exact value_le_intCast_iff.2 hbounds.1
  · intro k hk
    have hle := value_le_intCast_iff.1 hk
    exact Int.sub_one_lt_iff.1 (lt_of_mul_unit_lt (lt_of_lt_of_le hbounds.2 hle))

theorem wholeUp_sub_wholeDown (negative : Bool) (n : ℕ) :
    signed negative (wholeUp negative n) - signed negative (wholeDown negative n) = 0 ∨
      signed negative (wholeUp negative n) - signed negative (wholeDown negative n) = 1 := by
  have hle := (isNext_wholeUp.between negative n).1
  have hlt := lt_of_mul_unit_lt
    ((wholeUp_bounds negative n).2.trans (wholeDown_bounds negative n).2)
  omega

theorem isNearestMultiple_wholeNearest (negative : Bool) (m : Magnitude) :
    IsNearestMultiple 1 (finite negative m).value
      (signed negative (wholeNearest negative m.quanta)) := by
  have h := isNearestMultiple_divNearest negative m.quanta unit_pos one_pos
  rwa [mul_one, mul_one, ← value_finite] at h

end Binary64

/-! ### The operations -/

section Double

variable {name : String} (negative : Bool) (m : Magnitude) (line : ℕ)

/-- What an operation answers that takes a double to a whole number. -/
theorem evaluate_toWhole {op : Operation} {whole : Bool → ℕ → ℕ} (hwhole : Binary64.IsNext whole)
    (hname : op.Named name 1)
    (hcheck : op.descriptor.domain.check op [.float (.finite negative m)] = .ok ())
    (hcompute : op.compute [.float (.finite negative m)] =
      wholeInteger (Binary64.toWhole whole (.finite negative m))) :
    evaluate name [.float (.finite negative m)] line =
      .ok (.ofInt (signed negative (whole negative m.quanta))) := by
  rw [evaluate_of_admitted line hname hcheck, hcompute, wholeInteger_toWhole hwhole]
  rfl

theorem evaluate_floor_double (hname : Operation.floor.Named name 1) :
    evaluate name [.float (.finite negative m)] line =
      .ok (.ofInt (signed negative (Binary64.wholeDown negative m.quanta))) :=
  evaluate_toWhole negative m line Binary64.isNext_wholeDown hname rfl
    (by rw [Operation.compute, integralPart, Binary64.floor])

theorem evaluate_ceil_double (hname : Operation.ceil.Named name 1) :
    evaluate name [.float (.finite negative m)] line =
      .ok (.ofInt (signed negative (Binary64.wholeUp negative m.quanta))) :=
  evaluate_toWhole negative m line Binary64.isNext_wholeUp hname rfl
    (by rw [Operation.compute, integralPart, Binary64.ceil])

theorem evaluate_roundEven_double (hname : Operation.round.Named name 1) :
    evaluate name [.float (.finite negative m)] line =
      .ok (.ofInt (signed negative (Binary64.wholeNearest negative m.quanta))) :=
  evaluate_toWhole negative m line Binary64.isNext_wholeNearest hname rfl
    (by rw [Operation.compute, round, roundToInteger, Binary64.roundEven])

end Double

/-- **Floor, ceiling and rounding of a double are exact.** For every finite double they
answer the greatest integer that is not above its value, the least one that is not
below it and the nearest one, of two the even one; a word exactly if it fits. They
are in this order, floor and ceiling at most one apart, and the ceiling is the
opposite of the floor of the opposite double. -/
theorem evaluate_floor_ceil_round {floorName ceilName roundName : String}
    (hfloor : Operation.floor.Named floorName 1) (hceil : Operation.ceil.Named ceilName 1)
    (hround : Operation.round.Named roundName 1) {x : Binary64} (hx : x.isFinite = true)
    (line : ℕ) :
    ∃ low high near : ℤ,
      evaluate floorName [.float x] line = .ok (.ofInt low) ∧
      evaluate ceilName [.float x] line = .ok (.ofInt high) ∧
      evaluate roundName [.float x] line = .ok (.ofInt near) ∧
      IsGreatest {k : ℤ | (k : ℚ) ≤ x.value} low ∧ IsLeast {k : ℤ | x.value ≤ k} high ∧
      (∀ r : ℚ, IsNearestMultiple 1 x.value r ↔ r = near) ∧
      (∀ k ∈ [low, high, near],
        if -2 ^ 63 ≤ k ∧ k < 2 ^ 63 then ∃ w : Word, w.val = k ∧ Value.ofInt k = .small w
        else Value.ofInt k = .big k) ∧
      low ≤ near ∧ near ≤ high ∧ (high - low = 0 ∨ high - low = 1) ∧
      evaluate floorName [.float x.neg] line = .ok (.ofInt (-high)) := by
  match x, hx with
  | .finite negative m, _ =>
    have hnear := Binary64.isNearestMultiple_wholeNearest negative m
    have hbetween := Binary64.isNext_wholeNearest.between negative m.quanta
    refine ⟨_, _, _, evaluate_floor_double negative m line hfloor,
      evaluate_ceil_double negative m line hceil,
      evaluate_roundEven_double negative m line hround,
      Binary64.isGreatest_wholeDown negative m, Binary64.isLeast_wholeUp negative m, fun r => ?_,
      fun k _ => Value.ofInt_word k, hbetween.1, hbetween.2,
      Binary64.wholeUp_sub_wholeDown negative m.quanta, ?_⟩
    · constructor
      · exact fun h => h.unique one_pos hnear
      · rintro rfl
        exact hnear
    · rw [Binary64.signed_wholeUp, neg_neg]
      exact evaluate_floor_double (!negative) m line hfloor

/-- The double of the greatest word is past the words, and so is its floor. -/
theorem evaluate_floor_ceil_round_greatest :
    evaluate "FLOOR" [.float (.ofInt Word.greatest.val)] 1 = .ok (.big (2 ^ 63)) ∧
      IsGreatest {k : ℤ | (k : ℚ) ≤ (Binary64.ofInt Word.greatest.val).value} (2 ^ 63) := by
  have hvalue : evaluate "FLOOR" [.float (.ofInt Word.greatest.val)] 1 = .ok (.big (2 ^ 63)) := by
    decide +kernel
  obtain ⟨low, high, near, hlow, -, -, hgreatest, -⟩ :=
    @evaluate_floor_ceil_round "FLOOR" "Ceil" "round" ⟨by decide +kernel, by decide⟩
      ⟨by decide +kernel, by decide⟩ ⟨by decide +kernel, by decide⟩
      (.ofInt Word.greatest.val) (by decide +kernel) 1
  have hinteger : low = 2 ^ 63 :=
    Value.ofInt_injective (Except.ok.inj (hlow.symm.trans hvalue))
  rw [hinteger] at hgreatest
  exact ⟨hvalue, hgreatest⟩

end RegisterMachine
