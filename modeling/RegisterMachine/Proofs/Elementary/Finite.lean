/-
# Where the elementary functions have finite values

Each function is finite at finite arguments inside its domain, and what it
answers outside tells why: NaN where it has no value, an infinity where the
value is past the doubles. A real function of the machine fails exactly where
its argument is a number and the answer is such a sign (`Unfit`), so these
lemmas say of every elementary function when it fails.

Key definitions: `Binary64.Unfit`, `Binary64.OutsideUnit`,
`Binary64.ExponentialOverflows`.
Key theorems: `Binary64.unfit_sin_iff`, `Binary64.unfit_asin_iff`,
`Binary64.unfit_exp_iff`, `Binary64.not_unfit_sqrt`, `Binary64.isFinite_atan2`.
-/
import RegisterMachine.Binary64.Arithmetic
import RegisterMachine.Elementary.Exponential
import RegisterMachine.Elementary.Trigonometric
import RegisterMachine.Proofs.Binary64.Nearest

namespace RegisterMachine.Binary64

theorem isNaN_eq_false {x : Binary64} (h : x.isFinite = true) : x.isNaN = false := by
  cases x <;> simp_all [isFinite, isNaN]

theorem isInfinite_eq_false {x : Binary64} (h : x.isFinite = true) : x.isInfinite = false := by
  cases x <;> simp_all [isFinite, isInfinite]

theorem isFinite_iff_of_not_nan {x : Binary64} (h : x.isNaN = false) :
    x.isFinite = true ↔ ¬ x.isInfinite = true := by
  cases x <;> simp_all [isFinite, isInfinite, isNaN]

/-- The answer `y` at the argument `x` tells that there is no value, or that the
value is past the doubles. -/
def Unfit (x y : Binary64) : Prop :=
  (y.isNaN = true ∧ x.isNaN = false) ∨ (y.isInfinite = true ∧ x.isFinite = true)

theorem not_unfit_of_isFinite {x y : Binary64} (h : y.isFinite = true) : ¬ Unfit x y := by
  simp [Unfit, isNaN_eq_false h, isInfinite_eq_false h]

theorem not_unfit_nan (y : Binary64) : ¬ Unfit .nan y := by
  simp [Unfit, isNaN, isFinite]

theorem unfit_infinite_nan (negative : Bool) : Unfit (.infinite negative) .nan :=
  .inl ⟨rfl, rfl⟩

/-! ### Trigonometric functions -/

theorem isFinite_sin (negative : Bool) (m : Magnitude) :
    (sin (.finite negative m)).isFinite = true := by
  unfold sin
  dsimp only
  split
  · rfl
  · rw [isFinite_withSign]; exact isFinite_nearestReal _

theorem isFinite_cos (negative : Bool) (m : Magnitude) :
    (cos (.finite negative m)).isFinite = true := isFinite_nearestReal _

theorem isFinite_tan (negative : Bool) (m : Magnitude) :
    (tan (.finite negative m)).isFinite = true := by
  unfold tan
  dsimp only
  split
  · rfl
  · rw [isFinite_withSign]; exact isFinite_nearestReal _

theorem isFinite_atan (negative : Bool) (m : Magnitude) :
    (atan (.finite negative m)).isFinite = true := by
  unfold atan
  dsimp only
  split
  · rfl
  · rw [isFinite_withSign]; exact isFinite_nearestReal _

/-- The angle of a direction is finite unless there is no direction. -/
theorem isFinite_atan2 {y x : Binary64} (hy : y.isNaN = false) (hx : x.isNaN = false) :
    (atan2 y x).isFinite = true := by
  cases y with
  | nan => cases hy
  | infinite s =>
    cases x with
    | nan => cases hx
    | infinite t => cases t <;> simp only [atan2, isFinite_withSign] <;> rfl
    | finite t m => simp only [atan2, isFinite_withSign]; rfl
  | finite s n =>
    cases x with
    | nan => cases hx
    | infinite t => cases t <;> simp only [atan2, isFinite_withSign] <;> rfl
    | finite t m =>
      unfold atan2
      dsimp only
      split
      · cases t <;> rw [isFinite_withSign] <;> rfl
      · split
        · rw [isFinite_withSign]; rfl
        · rw [isFinite_withSign]; exact isFinite_nearestReal _

theorem unfit_iff_isInfinite {f : Binary64 → Binary64}
    (hfin : ∀ s m, (f (.finite s m)).isFinite = true) (hinf : ∀ s, f (.infinite s) = .nan)
    (x : Binary64) : Unfit x (f x) ↔ x.isInfinite = true := by
  cases x with
  | nan => exact iff_of_false (not_unfit_nan _) (by simp [isInfinite])
  | infinite s => rw [hinf]; exact iff_of_true (unfit_infinite_nan s) rfl
  | finite s m => exact iff_of_false (not_unfit_of_isFinite (hfin s m)) (by simp [isInfinite])

theorem unfit_sin_iff (x : Binary64) : Unfit x x.sin ↔ x.isInfinite = true :=
  unfit_iff_isInfinite isFinite_sin (fun _ => rfl) x

theorem unfit_cos_iff (x : Binary64) : Unfit x x.cos ↔ x.isInfinite = true :=
  unfit_iff_isInfinite isFinite_cos (fun _ => rfl) x

theorem unfit_tan_iff (x : Binary64) : Unfit x x.tan ↔ x.isInfinite = true :=
  unfit_iff_isInfinite isFinite_tan (fun _ => rfl) x

theorem not_unfit_atan (x : Binary64) : ¬ Unfit x x.atan := by
  cases x with
  | nan => exact not_unfit_nan _
  | infinite s =>
    apply not_unfit_of_isFinite
    rw [atan, isFinite_withSign]
    rfl
  | finite s m => exact not_unfit_of_isFinite (isFinite_atan s m)

/-! ### Inverse sine and cosine -/

/-- The number is below minus one or above one. -/
def OutsideUnit : Binary64 → Prop
  | .nan => False
  | .infinite _ => True
  | .finite _ m => unit < m.quanta

theorem unfit_asin_iff (x : Binary64) : Unfit x x.asin ↔ x.OutsideUnit := by
  cases x with
  | nan => exact iff_of_false (not_unfit_nan _) id
  | infinite s => exact iff_of_true (unfit_infinite_nan s) trivial
  | finite s m =>
    unfold asin OutsideUnit
    dsimp only
    by_cases h0 : m.ordinal = 0
    · rw [if_pos h0]
      apply iff_of_false (not_unfit_of_isFinite rfl)
      rw [Magnitude.quanta_eq, h0, ordinalQuanta_zero]
      exact Nat.not_lt_zero _
    · rw [if_neg h0]
      by_cases hu : unit < m.quanta
      · rw [if_pos hu]; exact iff_of_true (.inl ⟨rfl, rfl⟩) hu
      · rw [if_neg hu]
        refine iff_of_false (not_unfit_of_isFinite ?_) hu
        rw [isFinite_withSign]
        exact isFinite_nearestReal _

theorem unfit_acos_iff (x : Binary64) : Unfit x x.acos ↔ x.OutsideUnit := by
  cases x with
  | nan => exact iff_of_false (not_unfit_nan _) id
  | infinite s => exact iff_of_true (unfit_infinite_nan s) trivial
  | finite s m =>
    unfold acos OutsideUnit
    dsimp only
    by_cases hu : unit < m.quanta
    · rw [if_pos hu]; exact iff_of_true (.inl ⟨rfl, rfl⟩) hu
    · rw [if_neg hu]
      refine iff_of_false (not_unfit_of_isFinite ?_) hu
      split
      · rfl
      · exact isFinite_nearestReal _

/-! ### Exponential, logarithms and square root -/

/-- The number is finite and its exponential is past the doubles. -/
def ExponentialOverflows : Binary64 → Prop
  | .finite false m => overflowsFrom < m.ordinal
  | _ => False

theorem unfit_exp_iff (x : Binary64) : Unfit x x.exp ↔ x.ExponentialOverflows := by
  cases x with
  | nan => exact iff_of_false (not_unfit_nan _) id
  | infinite s =>
    refine iff_of_false ?_ id
    cases s <;> simp [exp, Unfit, isNaN, isFinite, zero, isInfinite]
  | finite s m =>
    have hiff := isFinite_exp_iff s m
    by_cases h : s = true ∨ m.ordinal ≤ overflowsFrom
    · apply iff_of_false (not_unfit_of_isFinite (hiff.2 h))
      cases s with
      | true => exact id
      | false => exact Nat.not_lt.2 (h.resolve_left (by simp))
    · rw [not_or, Bool.not_eq_true] at h
      obtain ⟨rfl, hm⟩ := h
      refine iff_of_true (.inr ⟨?_, rfl⟩) (Nat.not_le.1 hm)
      simp [exp, Nat.not_le.1 hm, isInfinite]

/-- A logarithm of a positive number is a number, and past the doubles only at
infinity. -/
theorem not_unfit_logWith (enclose : Nat → (p : Nat) → Option (Interval p)) {x : Binary64}
    (h : x.isPositive = true) : ¬ Unfit x (logWith enclose x) := by
  cases x with
  | nan => cases h
  | infinite s =>
    have hs : s = false := by simpa [isPositive] using h
    simp [logWith, hs, Unfit, isNaN, isFinite]
  | finite s m =>
    obtain ⟨rfl, hm⟩ : s = false ∧ m.ordinal ≠ 0 := by simpa [isPositive] using h
    exact not_unfit_of_isFinite (isFinite_logWith enclose hm)

theorem not_unfit_sqrt {x : Binary64} (h : x.isNonNegative = true) : ¬ Unfit x x.sqrt := by
  cases x with
  | nan => cases h
  | infinite s =>
    have hs : s = false := by simpa [isNonNegative] using h
    simp [sqrt, hs, Unfit, isNaN, isFinite]
  | finite s m =>
    have hs : ¬ (s = true ∧ m.ordinal ≠ 0) := by
      simp only [isNonNegative, Bool.or_eq_true, Bool.not_eq_true', beq_iff_eq] at h
      intro h'
      obtain ⟨rfl, hm⟩ := h'
      exact hm (h.resolve_left (by simp))
    apply not_unfit_of_isFinite
    rw [sqrt, if_neg hs, isFinite_nearestRoot_iff]
    have hunit : unit < overflowQuanta := by decide +kernel
    exact Nat.mul_lt_mul'' (m.quanta_lt_overflowQuanta) hunit

end RegisterMachine.Binary64
