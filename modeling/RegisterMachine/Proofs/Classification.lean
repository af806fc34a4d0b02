/-
# When an operation fails

For every operation it is said of its operands alone whether it refuses them
and with which kind of failure (`Operation.Refuses`): the domain that is checked
first and the computation behind it, which tests some of the same conditions
again, are not told apart. A name that means no operation, or one that does not
take so many operands, is a syntax failure, and nothing else is
(`evaluate_error_iff`). What an operation answers otherwise, whatever name it is called
by and on whatever line, is what it gives (`Operation.Gives`).

In particular the least common multiple never divides by zero, a logarithm has
no upper bound on integers, and a factorial fails in two ways, by its sign and
by its size.

Key definitions: `Value.TooLarge`, `Value.NotReal`, `Value.Integral`,
`Operation.Refuses`, `Operation.Named`, `Fails`, `Operation.Gives`.
Key theorems: `Value.toBinary64_eq_error_iff`, `Value.isIntegral_iff`,
`Operation.fails_invoke_iff`, `Operation.gives_iff_compute`, `evaluate_error_iff`.
-/
import RegisterMachine.Operation.Catalog
import RegisterMachine.Proofs.Elementary.Finite
import RegisterMachine.Proofs.Execution
import RegisterMachine.Proofs.Integral

namespace RegisterMachine

/-! ### Values that are no numbers of the kind that is needed -/

namespace Binary64

theorem isPositive_ofInt (n : Int) : (ofInt n).isPositive = true ↔ 0 < n := by
  have hzero : nearestOrdinal (n.natAbs * unit) 1 = 0 ↔ n = 0 := by
    rw [← Nat.le_zero, nearestOrdinal_le_iff _ Nat.one_pos, BelowMidpoint]
    have hm : midpoint 0 = 1 := by decide +kernel
    have hunit := unit_pos
    constructor
    · intro h
      by_contra hne
      have hpos : 1 ≤ n.natAbs := Int.natAbs_pos.2 hne
      have := Nat.mul_le_mul hpos hunit
      omega
    · rintro rfl
      simp [hm]
  unfold ofInt nearest
  split
  · simp only [isPositive, Bool.and_eq_true, Bool.not_eq_true', decide_eq_false_iff_not,
      bne_iff_ne, ne_eq, hzero]
    omega
  · rename_i hover
    simp only [isPositive, Bool.not_eq_true', decide_eq_false_iff_not]
    have hne : n ≠ 0 := by
      rintro rfl
      exact hover (by simp)
    omega

end Binary64

namespace Value

/-- The value is an integer past the doubles. -/
def TooLarge (v : Value) : Prop := ∃ n, v.exactInt? = some n ∧ integerOverflow ≤ n.natAbs

/-- The value is no double and cannot be rounded to one. -/
def NotReal (v : Value) : Prop := v.isComplex = true ∨ v.TooLarge

/-- The value is an integer, or a double without a fraction. -/
def Integral : Value → Prop
  | .small _ => True
  | .big _ => True
  | .float x => ∃ n : Int, x.quanta? = some (n * Binary64.unit)
  | .complex _ => False

/-- The value is real and not above zero, or NaN. -/
def NotPositive : Value → Prop
  | .small n => n.val ≤ 0
  | .big n => n ≤ 0
  | .float x => x.isPositive = false
  | .complex _ => False

theorem not_tooLarge_small (n : Word) : ¬ (Value.small n).TooLarge := by
  intro h'
  obtain ⟨_, ⟨⟩, h⟩ := h'
  have hlt := n.val_lt
  have hle := n.le_val
  have hbound : 2 ^ 63 < integerOverflow := by decide +kernel
  omega

theorem toBinary64_eq_error_iff (v : Value) : (∃ f, v.toBinary64 = .error f) ↔ v.NotReal := by
  cases v with
  | small n => simp [toBinary64, NotReal, isComplex, not_tooLarge_small]
  | big n =>
    have h := Binary64.isFinite_ofInt_iff n
    rw [toBinary64]
    by_cases hf : (Binary64.ofInt n).isFinite = true
    · rw [if_pos hf]
      apply iff_of_false (by simp)
      intro hcases
      rcases hcases with h' | ⟨_, ⟨⟩, hle⟩
      · cases h'
      · exact absurd (h.1 hf) (Nat.not_lt.2 hle)
    · rw [if_neg hf]
      exact iff_of_true ⟨_, rfl⟩ (.inr ⟨n, rfl, Nat.not_lt.1 fun hlt => hf (h.2 hlt)⟩)
  | float x => simp [toBinary64, NotReal, isComplex, TooLarge, exactInt?]
  | complex z => simp [toBinary64, NotReal, isComplex]

theorem toComplex_eq_error_iff (v : Value) : (∃ f, v.toComplex = .error f) ↔ v.TooLarge := by
  have hmap : ∀ {r : Except CoercionFailure Binary64},
      (∃ f, (r.map fun x => (⟨x, .zero⟩ : ComplexNumber)) = .error f) ↔ ∃ f, r = .error f := by
    intro r
    cases r <;> simp [Except.map]
  have hreal := toBinary64_eq_error_iff v
  cases v with
  | complex z => simp [toComplex, TooLarge, exactInt?]
  | small n => simp [toComplex, hmap, hreal, NotReal, isComplex]
  | big n => simp [toComplex, hmap, hreal, NotReal, isComplex]
  | float x => simp [toComplex, hmap, hreal, NotReal, isComplex]

theorem isIntegral_iff (v : Value) : v.isIntegral = true ↔ v.Integral := by
  cases v with
  | small n => simp [isIntegral, toInteger, Integral, Except.toBool]
  | big n => simp [isIntegral, toInteger, Integral, Except.toBool]
  | complex z => simp [isIntegral, toInteger, Integral, Except.toBool]
  | float x =>
    have hint : (Value.float x).isIntegral = x.toInt?.isSome := by
      rw [isIntegral, toInteger]
      cases x.toInt? <;> rfl
    rw [hint, Binary64.toInt?_isSome]
    cases x with
    | nan =>
      refine iff_of_false Bool.false_ne_true ?_
      rintro ⟨_, ⟨⟩⟩
    | infinite s =>
      refine iff_of_false Bool.false_ne_true ?_
      rintro ⟨_, ⟨⟩⟩
    | finite s m =>
      simp only [Binary64.isIntegral, beq_iff_eq, Integral, Binary64.quanta?, Option.some.injEq]
      have hdvd : ∀ d : Nat, (d : Int) ∣ signed s m.quanta ↔ d ∣ m.quanta := by
        intro d
        cases s <;> simp [signed, Int.natCast_dvd_natCast]
      rw [← Nat.dvd_iff_mod_eq_zero, ← hdvd, dvd_iff_exists_eq_mul_left]

theorem exists_toInteger_iff (v : Value) : (∃ n, v.toInteger = .ok n) ↔ v.Integral := by
  rw [← isIntegral_iff, isIntegral]
  cases v.toInteger <;> simp [Except.toBool]

end Value

/-! ### Which operands an operation refuses -/

/-- The operands, as many as the operation takes, make it fail with this kind
of failure. -/
def Operation.Refuses (kind : ErrorKind) : Operation → List Value → Prop
  | .sin, [x] | .cos, [x] | .tan, [x] =>
    kind = .runtimeError ∧ (x.NotReal ∨ ∃ y, x.toBinary64 = .ok y ∧ y.isInfinite = true)
  | .asin, [x] | .acos, [x] =>
    kind = .runtimeError ∧ (x.NotReal ∨ ∃ y, x.toBinary64 = .ok y ∧ y.OutsideUnit)
  | .atan, [x] => kind = .runtimeError ∧ x.NotReal
  | .atan2, [y, x] => kind = .runtimeError ∧ (y.NotReal ∨ x.NotReal)
  | .exp, [x] =>
    kind = .runtimeError ∧ (x.NotReal ∨ ∃ y, x.toBinary64 = .ok y ∧ y.ExponentialOverflows)
  | .log, [x] | .log10, [x] =>
    (kind = .runtimeError ∧ x.isComplex = true) ∨ (kind = .valueError ∧ x.NotPositive)
  | .sqrt, [x] =>
    (kind = .runtimeError ∧ x.NotReal) ∨
      (kind = .valueError ∧ ∃ y, x.toBinary64 = .ok y ∧ y.isNonNegative = false)
  | .floor, [x] | .ceil, [x] | .round, [x] =>
    kind = .runtimeError ∧ (x.isComplex = true ∨ ∃ y, x = .float y ∧ y.isFinite = false)
  | .round, [x, places] => kind = .typeError ∧ (¬ places.Integral ∨ x.isComplex = true)
  | .gcd, [a, b] | .lcm, [a, b] => kind = .typeError ∧ (¬ a.Integral ∨ ¬ b.Integral)
  | .factorial, [x] =>
    (kind = .valueError ∧ (x.exactInt? = none ∨ ∃ n, x.exactInt? = some n ∧ n < 0)) ∨
      (kind = .runtimeError ∧ ∃ n, x.exactInt? = some n ∧ 2 ^ 63 ≤ n)
  | .complex, [a, b] => kind = .runtimeError ∧ (a.TooLarge ∨ b.TooLarge)
  | .realPart, [x] | .imagPart, [x] | .conjugate, [x] | .magnitude, [x] | .phase, [x] =>
    kind = .typeError ∧ x.isComplex = false
  | _, _ => False

/-- The name means the operation, in any case of its letters, and the operation
takes so many operands. -/
def Operation.Named (operation : Operation) (name : String) (count : Nat) : Prop :=
  operation.name = upperCase name ∧ count ∈ operation.descriptor.arities

/-- The answer is a failure of this kind. -/
def Fails {α : Type} (answer : Except Cause α) (kind : ErrorKind) : Prop :=
  ∃ cause, answer = .error cause ∧ cause.kind = kind

section Fails

variable {α β : Type} {kind : ErrorKind}

@[simp]
theorem fails_ok (a : α) : Fails (.ok a) kind ↔ False := by simp [Fails]

@[simp]
theorem fails_error (cause : Cause) : Fails (.error cause : Except Cause α) kind ↔
    kind = cause.kind := by
  simp [Fails, eq_comm]

/-- A sequence fails in its first step, or in the second one after the first. -/
@[simp]
theorem fails_bind (r : Except Cause α) (f : α → Except Cause β) :
    Fails (r >>= f) kind ↔ Fails r kind ∨ ∃ a, r = .ok a ∧ Fails (f a) kind := by
  cases r <;> simp [Fails, bind, Except.bind]

@[simp]
theorem fails_coerced (r : Except CoercionFailure α) :
    Fails (coerced r) kind ↔ kind = .runtimeError ∧ ∃ f, r = .error f := by
  cases r <;> simp [coerced, Except.mapError, Cause.kind]

@[simp]
theorem coerced_eq_ok_iff (r : Except CoercionFailure α) (a : α) :
    coerced r = .ok a ↔ r = .ok a := by
  cases r <;> simp [coerced, Except.mapError]

@[simp]
theorem require_eq_ok_iff (cause : Cause) (condition : Bool) (u : Unit) :
    Domain.require cause condition = .ok u ↔ condition = true := by
  cases condition <;> simp [Domain.require]

end Fails

/-! ### Real functions -/

section Real

variable {kind : ErrorKind}

theorem fails_checked_iff (x y : Binary64) :
    Fails (checked x.isFinite x.isNaN y) kind ↔ kind = .runtimeError ∧ x.Unfit y := by
  unfold checked Binary64.Unfit
  split
  · rename_i h
    simp_all [Cause.kind]
  · rename_i h
    split
    · rename_i h'
      simp_all [Cause.kind]
    · rename_i h'
      simp_all

/-- A real function fails where its operand is no double and where its value is
no finite double. -/
theorem fails_realFunction_iff (f : Binary64 → Binary64) (x : Value) :
    Fails (realFunction f x) kind ↔
      kind = .runtimeError ∧ (x.NotReal ∨ ∃ y, x.toBinary64 = .ok y ∧ y.Unfit (f y)) := by
  simp only [realFunction, fails_bind, fails_coerced, coerced_eq_ok_iff, fails_checked_iff,
    x.toBinary64_eq_error_iff]
  constructor
  · intro hcases
    rcases hcases with ⟨h, h'⟩ | ⟨y, hy, h, h'⟩
    · exact ⟨h, .inl h'⟩
    · exact ⟨h, .inr ⟨y, hy, h'⟩⟩
  · intro hcases
    rcases hcases with ⟨h, h' | ⟨y, hy, h'⟩⟩
    · exact .inl ⟨h, h'⟩
    · exact .inr ⟨y, hy, h, h'⟩

theorem fails_directionAngle_iff (y x : Value) :
    Fails (directionAngle y x) kind ↔ kind = .runtimeError ∧ (y.NotReal ∨ x.NotReal) := by
  have hchecked : ∀ a b : Binary64,
      ¬ Fails (checked (a.isFinite && b.isFinite) (a.isNaN || b.isNaN) (a.atan2 b)) kind := by
    intro a b
    unfold checked
    by_cases h : a.isNaN = true ∨ b.isNaN = true
    · have hnan : a.atan2 b = .nan := by
        cases a <;> cases b <;> simp_all [Binary64.isNaN, Binary64.atan2]
      rcases h with h | h <;> simp [hnan, h, Binary64.isInfinite]
    · rw [not_or, Bool.not_eq_true, Bool.not_eq_true] at h
      have hfin := Binary64.isFinite_atan2 h.1 h.2
      simp [Binary64.isNaN_eq_false hfin, Binary64.isInfinite_eq_false hfin]
  simp only [directionAngle, fails_bind, fails_coerced, coerced_eq_ok_iff, hchecked,
    Value.toBinary64_eq_error_iff, and_false, exists_false, or_false]
  constructor
  · intro hcases
    rcases hcases with ⟨h, h'⟩ | ⟨_, _, h, h'⟩
    · exact ⟨h, .inl h'⟩
    · exact ⟨h, .inr h'⟩
  · intro hcases
    obtain ⟨h, h'⟩ := hcases
    by_cases hy : y.NotReal
    · exact .inl ⟨h, hy⟩
    · cases hb : y.toBinary64 with
      | ok b => exact .inr ⟨b, rfl, h, h'.resolve_left hy⟩
      | error f => exact absurd (y.toBinary64_eq_error_iff.1 ⟨f, hb⟩) hy

end Real

/-! ### Logarithms and square root -/

section Domain

variable {kind : ErrorKind}

/-- Where the condition that is checked first rules out every failure of the
computation, only the check fails. -/
theorem fails_require_bind_iff {α : Type} {cause : Cause} {condition : Bool}
    {f : Unit → Except Cause α} (hf : condition = true → ¬ Fails (f ()) kind) :
    Fails (Domain.require cause condition >>= f) kind ↔
      kind = cause.kind ∧ condition = false := by
  cases condition with
  | true => exact iff_of_false (hf rfl) (by simp)
  | false => simp [Domain.require, bind, Except.bind]

theorem isPositive_small (n : Word) :
    Domain.isPositive (.small n) = .ok (decide (0 < n.val)) := by
  have hdouble : Domain.isPositive (.small n) = .ok (Binary64.ofInt n.val).isPositive := rfl
  have hsign : (Binary64.ofInt n.val).isPositive = decide (0 < n.val) := by
    rw [Bool.eq_iff_iff, Binary64.isPositive_ofInt, decide_eq_true_iff]
  rw [hdouble, hsign]

/-- An integer in either encoding is above zero if its sign tells so. -/
theorem check_positive_of_exactInt? (op : Operation) {x : Value} {n : Int}
    (hx : x.exactInt? = some n) :
    Domain.positive.check op [x] = Domain.require (.notPositive op) (decide (0 < n)) := by
  cases x with
  | small w =>
    obtain rfl := Option.some.inj hx
    rw [Domain.check, isPositive_small]
    rfl
  | big m =>
    obtain rfl := Option.some.inj hx
    rfl
  | float y => cases hx
  | complex z => cases hx

/-- After its operand is known to be positive, a logarithm always exists. -/
theorem fails_logarithm_iff (op : Operation) {f : Binary64 → Binary64} (logTwo : Binary64)
    (hf : ∀ y : Binary64, y.isPositive = true → ¬ y.Unfit (f y)) (x : Value) :
    Fails (Domain.positive.check op [x] >>= fun _ => logarithm f logTwo x) kind ↔
      (kind = .runtimeError ∧ x.isComplex = true) ∨ (kind = .valueError ∧ x.NotPositive) := by
  have hreal : ∀ (v : Value) (y : Binary64), v.toBinary64 = .ok y → ¬ v.NotReal →
      y.isPositive = true → ¬ Fails (realFunction f v) kind := by
    intro v y hv hv' hy
    rw [fails_realFunction_iff]
    intro h'
    rcases h' with ⟨-, h | ⟨y', hy', h⟩⟩
    · exact hv' h
    · rw [hv, Except.ok.injEq] at hy'
      exact hf y hy (hy' ▸ h)
  cases x with
  | small n =>
    have hcheck := check_positive_of_exactInt? op (x := .small n) rfl
    have hlog : decide (0 < n.val) = true → ¬ Fails (realFunction f (.small n)) kind := by
      intro hpos
      refine hreal (.small n) (.ofInt n.val) rfl ?_
        ((Binary64.isPositive_ofInt _).2 (of_decide_eq_true hpos))
      simp [Value.NotReal, Value.isComplex, Value.not_tooLarge_small]
    rw [hcheck, fails_require_bind_iff hlog, decide_eq_false_iff_not, Int.not_lt]
    simp [Cause.kind, Value.isComplex, Value.NotPositive]
  | big n =>
    have hcheck := check_positive_of_exactInt? op (x := .big n) rfl
    rw [hcheck, fails_require_bind_iff (by simp [logarithm])]
    simp [Cause.kind, Value.isComplex, Value.NotPositive]
  | float y =>
    have hcheck : Domain.positive.check op [.float y] =
        Domain.require (.notPositive op) y.isPositive := rfl
    have hy : ¬ (Value.float y).NotReal := by
      simp [Value.NotReal, Value.isComplex, Value.TooLarge, Value.exactInt?]
    have hlog := hreal (.float y) y rfl hy
    rw [hcheck, fails_require_bind_iff hlog]
    simp [Cause.kind, Value.isComplex, Value.NotPositive]
  | complex z =>
    have hcheck : Domain.positive.check op [.complex z] =
        .error (.coercion (.notReal "complex")) := rfl
    simp [hcheck, Cause.kind, Value.isComplex, Value.NotPositive]

theorem fails_squareRoot_iff (op : Operation) (x : Value) :
    Fails (Domain.nonNegative.check op [x] >>= fun _ => realFunction .sqrt x) kind ↔
      (kind = .runtimeError ∧ x.NotReal) ∨
        (kind = .valueError ∧ ∃ y, x.toBinary64 = .ok y ∧ y.isNonNegative = false) := by
  cases hx : x.toBinary64 with
  | error f =>
    have hcheck : Domain.nonNegative.check op [x] = .error (.coercion f) := by
      simp [Domain.check, Domain.isNonNegative, hx, coerced, Except.mapError, Except.map, bind,
        Except.bind]
    have hreal := x.toBinary64_eq_error_iff.1 ⟨f, hx⟩
    simp [hcheck, Cause.kind, hreal]
  | ok y =>
    have hcheck : Domain.nonNegative.check op [x] =
        Domain.require (.negative op) y.isNonNegative := by
      simp [Domain.check, Domain.isNonNegative, hx, coerced, Except.mapError, Except.map, bind,
        Except.bind]
    have hreal : ¬ x.NotReal := by
      rw [← x.toBinary64_eq_error_iff, hx]
      simp
    rw [hcheck, fails_require_bind_iff]
    · simp [Cause.kind, hreal]
    · intro hy
      rw [fails_realFunction_iff, hx]
      intro h'
      rcases h' with ⟨-, h | ⟨_, ⟨⟩, h⟩⟩
      · exact hreal h
      · exact Binary64.not_unfit_sqrt hy h

/-! ### Integer functions and rounding -/

/-- A double that is taken to a whole number is an integer then, unless it is not finite. -/
theorem fails_wholeInteger_iff {whole : Bool → Nat → Nat} (hwhole : Binary64.IsNext whole)
    (y : Binary64) :
    Fails (wholeInteger (y.toWhole whole)) kind ↔ kind = .runtimeError ∧ y.isFinite = false := by
  match y with
  | .nan | .infinite _ =>
    simp [Binary64.toWhole, wholeInteger, Binary64.isNaN, Binary64.isInfinite, Binary64.isFinite,
      Cause.kind]
  | .finite negative m => simp [wholeInteger_toWhole hwhole, Binary64.isFinite]

theorem fails_integralPart_iff {whole : Bool → Nat → Nat} (hwhole : Binary64.IsNext whole)
    (x : Value) :
    Fails (integralPart (Binary64.toWhole whole) x) kind ↔
      kind = .runtimeError ∧ (x.isComplex = true ∨ ∃ y, x = .float y ∧ y.isFinite = false) := by
  cases x <;> simp [integralPart, fails_wholeInteger_iff hwhole, Value.isComplex, Cause.kind]

theorem fails_roundToInteger_iff (x : Value) :
    Fails (roundToInteger x) kind ↔
      kind = .runtimeError ∧ (x.isComplex = true ∨ ∃ y, x = .float y ∧ y.isFinite = false) := by
  cases x <;> simp [roundToInteger, Binary64.roundEven,
    fails_wholeInteger_iff Binary64.isNext_wholeNearest, Value.isComplex, Cause.kind]

/-- After the places are known to be an integer, only a complex number is not
rounded. -/
theorem fails_roundToPlaces_iff (op : Operation) (x places : Value) :
    Fails (Domain.decimalPlaces.check op [x, places] >>= fun _ => roundToPlaces x places) kind ↔
      kind = .typeError ∧ (¬ places.Integral ∨ x.isComplex = true) := by
  have hcheck : Domain.decimalPlaces.check op [x, places] =
      Domain.require (.placesNotInteger op) places.isIntegral := rfl
  rw [hcheck, ← places.isIntegral_iff]
  cases hp : places.toInteger with
  | error f =>
    have hint : places.isIntegral = false := by rw [Value.isIntegral, hp]; rfl
    simp [hint, Domain.require, Cause.kind, bind, Except.bind]
  | ok n =>
    have hint : places.isIntegral = true := by rw [Value.isIntegral, hp]; rfl
    have hrequire : Domain.require (.placesNotInteger op) true = .ok () := rfl
    rw [hint, hrequire]
    cases x <;> simp [roundToPlaces, hp, Value.isComplex, Cause.kind]

/-- After both operands are known to be integers, there is nothing left to fail
in `f`, if it does not fail on integers. -/
theorem fails_integers_iff (op : Operation) (f : Int → Int → Answer)
    (hf : ∀ m n, ¬ Fails (f m n) kind) (a b : Value) :
    Fails (Domain.integers.check op [a, b] >>= fun _ => do
      let a ← coerced a.toInteger
      let b ← coerced b.toInteger
      f a b) kind ↔ kind = .typeError ∧ (¬ a.Integral ∨ ¬ b.Integral) := by
  have hcheck : Domain.integers.check op [a, b] =
      Domain.require (.notIntegers op) (a.isIntegral && b.isIntegral) := by
    simp [Domain.check]
  rw [hcheck, fails_require_bind_iff, Bool.and_eq_false_iff, ← Bool.not_eq_true,
    ← Bool.not_eq_true, a.isIntegral_iff, b.isIntegral_iff]
  · rfl
  · rw [Bool.and_eq_true, a.isIntegral_iff, b.isIntegral_iff, ← a.exists_toInteger_iff,
      ← b.exists_toInteger_iff]
    intro h
    obtain ⟨⟨m, hm⟩, n, hn⟩ := h
    simpa [hm, hn, coerced, Except.mapError] using hf m n

theorem fails_greatestCommonDivisor_iff (op : Operation) (a b : Value) :
    Fails (Domain.integers.check op [a, b] >>= fun _ => greatestCommonDivisor a b) kind ↔
      kind = .typeError ∧ (¬ a.Integral ∨ ¬ b.Integral) :=
  fails_integers_iff op (fun m n => .ok (.ofInt (euclid m.natAbs n.natAbs))) (by simp) a b

/-- The least common multiple never divides by zero: the divisor of two integers
other than zero is positive. -/
theorem fails_leastCommonMultiple_iff (op : Operation) (a b : Value) :
    Fails (Domain.integers.check op [a, b] >>= fun _ => leastCommonMultiple a b) kind ↔
      kind = .typeError ∧ (¬ a.Integral ∨ ¬ b.Integral) := by
  refine fails_integers_iff op _ (fun m n => ?_) a b
  by_cases h : m = 0 ∨ n = 0
  · simp [h]
  · have hgcd : euclid m.natAbs n.natAbs ≠ 0 := by
      rw [euclid_natAbs, Nat.cast_ne_zero, Ne, Int.gcd_eq_zero_iff]
      exact fun hzero => h (.inl hzero.1)
    rw [if_neg h, if_neg hgcd]
    simp

theorem fails_factorial_iff (op : Operation) (x : Value) :
    Fails (Domain.nonNegativeInteger.check op [x] >>= fun _ => factorial x) kind ↔
      (kind = .valueError ∧ (x.exactInt? = none ∨ ∃ n, x.exactInt? = some n ∧ n < 0)) ∨
        (kind = .runtimeError ∧ ∃ n, x.exactInt? = some n ∧ 2 ^ 63 ≤ n) := by
  have hcheck : Domain.nonNegativeInteger.check op [x] =
      Domain.require (.notNatural op) (x.exactInt?.any fun n => 0 ≤ n) := rfl
  rw [hcheck, factorial]
  cases x.exactInt? with
  | none => simp [Domain.require, Cause.kind, bind, Except.bind]
  | some n =>
    by_cases hn : 0 ≤ n
    · have hlt : ¬ n < 0 := Int.not_lt.2 hn
      have hlow : -2 ^ 63 ≤ n := by omega
      by_cases hbound : n < 2 ^ 63
      · have hle : ¬ (2 : Int) ^ 63 ≤ n := Int.not_le.2 hbound
        simp only [Option.any_some, hn, decide_true, Domain.require, if_true, Word.ofInt?,
          hlow, hbound, and_self, dif_pos, hlt, hle, Option.some.injEq, exists_eq_left',
          reduceCtorEq, and_false, or_self, bind, Except.bind, fails_ok]
      · have hle : (2 : Int) ^ 63 ≤ n := Int.not_lt.1 hbound
        simp only [Option.any_some, hn, decide_true, Domain.require, if_true, Word.ofInt?,
          hbound, and_false, dif_neg, not_false_eq_true, hlt, hle, Option.some.injEq,
          exists_eq_left', reduceCtorEq, or_false, false_or, and_true, bind, Except.bind,
          fails_error, Cause.kind]
    · have hlt : n < 0 := Int.not_le.1 hn
      have hle : ¬ (2 : Int) ^ 63 ≤ n := by omega
      simp only [Option.any_some, hn, decide_false, Domain.require, Bool.false_eq_true, if_false,
        bind, Except.bind, fails_error, Cause.kind, reduceCtorEq, Option.some.injEq,
        exists_eq_left', hlt, hle, or_true, and_true, and_false, or_false]

/-! ### Complex functions -/

theorem fails_buildComplex_iff (a b : Value) :
    Fails (buildComplex a b) kind ↔ kind = .runtimeError ∧ (a.TooLarge ∨ b.TooLarge) := by
  simp only [buildComplex, fails_bind, fails_coerced, coerced_eq_ok_iff, fails_ok,
    Value.toComplex_eq_error_iff, and_false, exists_false, or_false]
  constructor
  · intro hcases
    rcases hcases with ⟨h, h'⟩ | ⟨_, _, h, h'⟩
    · exact ⟨h, .inl h'⟩
    · exact ⟨h, .inr h'⟩
  · intro hcases
    obtain ⟨h, h'⟩ := hcases
    by_cases ha : a.TooLarge
    · exact .inl ⟨h, ha⟩
    · cases hz : a.toComplex with
      | ok z => exact .inr ⟨z, rfl, h, h'.resolve_left ha⟩
      | error f => exact absurd (a.toComplex_eq_error_iff.1 ⟨f, hz⟩) ha

theorem fails_complexFunction_iff (op : Operation) (f : ComplexNumber → Value) (x : Value) :
    Fails (Domain.complexOnly.check op [x] >>= fun _ => complexFunction f x) kind ↔
      kind = .typeError ∧ x.isComplex = false := by
  have hcheck : Domain.complexOnly.check op [x] = Domain.require (.notComplex op) x.isComplex :=
    rfl
  rw [hcheck, fails_require_bind_iff]
  · rfl
  · cases x <;> simp [complexFunction, Value.complex?, Value.isComplex]

end Domain

/-! ### Every operation -/

section Operations

variable {kind : ErrorKind}

theorem fails_unconstrained (op : Operation) (operands : List Value) (answer : Answer) :
    Fails (Domain.unconstrained.check op operands >>= fun _ => answer) kind ↔ Fails answer kind :=
  Iff.rfl

theorem Descriptor.accepts_iff {d : Descriptor} {count : Nat} :
    d.accepts count = true ↔ count ∈ d.arities := List.contains_iff_mem

theorem Operation.fails_invoke_one_iff {op : Operation} {x : Value}
    (h : 1 ∈ op.descriptor.arities) :
    Fails (op.descriptor.invoke [x]) kind ↔ op.Refuses kind [x] := by
  rw [Descriptor.invoke_of_accepts (Descriptor.accepts_iff.2 h)]
  cases op with
  | sin =>
    refine (fails_realFunction_iff .sin x).trans ?_
    simp only [Binary64.unfit_sin_iff, Operation.Refuses]
  | cos =>
    refine (fails_realFunction_iff .cos x).trans ?_
    simp only [Binary64.unfit_cos_iff, Operation.Refuses]
  | tan =>
    refine (fails_realFunction_iff .tan x).trans ?_
    simp only [Binary64.unfit_tan_iff, Operation.Refuses]
  | asin =>
    refine (fails_realFunction_iff .asin x).trans ?_
    simp only [Binary64.unfit_asin_iff, Operation.Refuses]
  | acos =>
    refine (fails_realFunction_iff .acos x).trans ?_
    simp only [Binary64.unfit_acos_iff, Operation.Refuses]
  | atan =>
    refine (fails_realFunction_iff .atan x).trans ?_
    simp only [Binary64.not_unfit_atan, Operation.Refuses, and_false, exists_false, or_false]
  | exp =>
    refine (fails_realFunction_iff .exp x).trans ?_
    simp only [Binary64.unfit_exp_iff, Operation.Refuses]
  | log => exact fails_logarithm_iff .log logTwo (fun _ => Binary64.not_unfit_logWith _) x
  | log10 => exact fails_logarithm_iff .log10 logTenOfTwo (fun _ => Binary64.not_unfit_logWith _) x
  | sqrt => exact fails_squareRoot_iff .sqrt x
  | abs =>
    refine (fails_unconstrained .abs [x] (absolute x)).trans ?_
    cases x <;> simp [absolute, Operation.Refuses]
  | floor => exact fails_integralPart_iff Binary64.isNext_wholeDown x
  | ceil => exact fails_integralPart_iff Binary64.isNext_wholeUp x
  | round => exact fails_roundToInteger_iff x
  | factorial => exact fails_factorial_iff .factorial x
  | realPart => exact fails_complexFunction_iff .realPart _ x
  | imagPart => exact fails_complexFunction_iff .imagPart _ x
  | conjugate => exact fails_complexFunction_iff .conjugate _ x
  | magnitude => exact fails_complexFunction_iff .magnitude _ x
  | phase => exact fails_complexFunction_iff .phase _ x
  | atan2 => simp [Operation.descriptor] at h
  | gcd => simp [Operation.descriptor] at h
  | lcm => simp [Operation.descriptor] at h
  | complex => simp [Operation.descriptor] at h

theorem Operation.fails_invoke_two_iff {op : Operation} {x y : Value}
    (h : 2 ∈ op.descriptor.arities) :
    Fails (op.descriptor.invoke [x, y]) kind ↔ op.Refuses kind [x, y] := by
  rw [Descriptor.invoke_of_accepts (Descriptor.accepts_iff.2 h)]
  cases op <;> try simp [Operation.descriptor] at h
  case atan2 => exact fails_directionAngle_iff x y
  case gcd => exact fails_greatestCommonDivisor_iff .gcd x y
  case lcm => exact fails_leastCommonMultiple_iff .lcm x y
  case round => exact fails_roundToPlaces_iff .round x y
  case complex => exact fails_buildComplex_iff x y

/-- **An operation that takes its operands fails exactly where it refuses them.** -/
theorem Operation.fails_invoke_iff {op : Operation} {operands : List Value}
    (h : operands.length ∈ op.descriptor.arities) :
    Fails (op.descriptor.invoke operands) kind ↔ op.Refuses kind operands := by
  match operands, h with
  | [], h => cases op <;> simp [Operation.descriptor] at h
  | [x], h => exact Operation.fails_invoke_one_iff h
  | [x, y], h => exact Operation.fails_invoke_two_iff h
  | _ :: _ :: _ :: _, h => cases op <;> simp [Operation.descriptor] at h

end Operations

/-! ### Evaluation by name -/

theorem Operation.ofName?_eq_some_iff {name : String} {op : Operation} :
    Operation.ofName? name = some op ↔ op.name = upperCase name := by
  constructor
  · intro h
    simpa using List.find?_some h
  · intro h
    rw [← ofName?_upperCase, ← h, ofName?_name]

theorem lookup?_eq_some_iff_named {name : String} {count : Nat} {d : Descriptor} :
    lookup? name count = some d ↔ ∃ op : Operation, op.Named name count ∧ d = op.descriptor := by
  rw [lookup?_eq_some_iff]
  constructor
  · intro h
    obtain ⟨op, hop, rfl, hcount⟩ := h
    exact ⟨op, ⟨Operation.ofName?_eq_some_iff.1 hop, Descriptor.accepts_iff.1 hcount⟩, rfl⟩
  · intro h
    obtain ⟨op, ⟨hop, hcount⟩, rfl⟩ := h
    exact ⟨op, Operation.ofName?_eq_some_iff.2 hop, rfl, Descriptor.accepts_iff.2 hcount⟩

theorem Operation.Named.unique {name : String} {count count' : Nat} {op op' : Operation}
    (h : op.Named name count) (h' : op'.Named name count') : op = op' := by
  have hop := Operation.ofName?_eq_some_iff.2 h.1
  rw [Operation.ofName?_eq_some_iff.2 h'.1] at hop
  exact (Option.some.inj hop).symm

theorem Operation.not_refuses_syntaxError {op : Operation} {operands : List Value} :
    ¬ op.Refuses .syntaxError operands := by
  intro h
  unfold Operation.Refuses at h
  split at h <;> simp at h

theorem evaluate_eq_error_of_not_named {name : String} {operands : List Value} (line : Nat)
    (h : ¬ ∃ op : Operation, op.Named name operands.length) :
    evaluate name operands line =
      .error ((Cause.unknownOperation (upperCase name)).failure.atLine line) := by
  have habsent : lookup? name operands.length = none := by
    refine Option.eq_none_iff_forall_ne_some.2 fun d hd => ?_
    obtain ⟨op, hop, -⟩ := lookup?_eq_some_iff_named.1 hd
    exact h ⟨op, hop⟩
  rw [evaluate, habsent]

theorem evaluate_of_named {name : String} {operands : List Value} (line : Nat) {op : Operation}
    (h : op.Named name operands.length) :
    evaluate name operands line = (op.descriptor.invoke operands).mapError fun cause =>
      (cause.failure.inOperation op.descriptor.operation.name).atLine line := by
  have hd : lookup? name operands.length = some op.descriptor :=
    lookup?_eq_some_iff_named.2 ⟨op, h, rfl⟩
  rw [evaluate, hd]

theorem evaluate_of_admitted {name : String} {operands : List Value} (line : Nat) {op : Operation}
    (h : op.Named name operands.length)
    (hcheck : op.descriptor.domain.check op operands = .ok ()) :
    evaluate name operands line = (op.compute operands).mapError fun cause =>
      (cause.failure.inOperation op.name).atLine line := by
  rw [evaluate_of_named line h, Descriptor.invoke_of_accepts (Descriptor.accepts_iff.2 h.2),
    op.operation_descriptor, hcheck]
  rfl

theorem evaluate_eq_ok_iff_of_named {name : String} {operands : List Value} (line : Nat)
    {op : Operation} {v : Value} (h : op.Named name operands.length) :
    evaluate name operands line = .ok v ↔ op.descriptor.invoke operands = .ok v := by
  rw [evaluate_of_named line h]
  cases op.descriptor.invoke operands <;> simp [Except.mapError]

/-- The operation takes these operands and, called by its name in any case, answers the
value. -/
def Operation.Gives (op : Operation) (operands : List Value) (v : Value) : Prop :=
  operands.length ∈ op.descriptor.arities ∧
    ∀ name line, op.Named name operands.length → evaluate name operands line = .ok v

theorem Operation.gives_iff {op : Operation} {operands : List Value} {v : Value} :
    op.Gives operands v ↔ op.descriptor.invoke operands = .ok v := by
  constructor
  · intro h
    obtain ⟨hcount, hcall⟩ := h
    have hown : op.Named op.name operands.length :=
      ⟨ofName?_eq_some_iff.1 (ofName?_name op), hcount⟩
    exact (evaluate_eq_ok_iff_of_named 0 hown).1 (hcall op.name 0 hown)
  · intro h
    refine ⟨?_, fun name line hname => (evaluate_eq_ok_iff_of_named line hname).2 h⟩
    by_contra hcount
    rw [Descriptor.invoke_of_not_accepts fun hd => hcount (Descriptor.accepts_iff.1 hd)] at h
    cases h

/-- What is given has passed both checks and is what is computed. -/
theorem Operation.gives_iff_compute {op : Operation} {operands : List Value} {v : Value} :
    op.Gives operands v ↔ operands.length ∈ op.descriptor.arities ∧
      op.descriptor.domain.check op operands = .ok () ∧ op.compute operands = .ok v := by
  rw [gives_iff]
  by_cases hcount : operands.length ∈ op.descriptor.arities
  · rw [Descriptor.invoke_of_accepts (Descriptor.accepts_iff.2 hcount), op.operation_descriptor]
    cases op.descriptor.domain.check op operands <;> simp [hcount, bind, Except.bind]
  · rw [Descriptor.invoke_of_not_accepts fun hd => hcount (Descriptor.accepts_iff.1 hd)]
    simp [hcount]

theorem Operation.exists_gives_iff {op : Operation} {operands : List Value}
    (hcount : operands.length ∈ op.descriptor.arities) :
    (∃ v, op.Gives operands v) ↔ ∀ kind, ¬ op.Refuses kind operands := by
  simp only [gives_iff, ← fails_invoke_iff hcount]
  cases op.descriptor.invoke operands <;> simp

/-- Evaluation of an operation by name fails as the operation refuses. -/
theorem evaluate_fails_iff_of_named {name : String} {operands : List Value} (line : Nat)
    {op : Operation} (h : op.Named name operands.length) (kind : ErrorKind) :
    (∃ report, evaluate name operands line = .error report ∧ report.kind = kind) ↔
      op.Refuses kind operands := by
  rw [← Operation.fails_invoke_iff h.2, evaluate_of_named line h]
  cases op.descriptor.invoke operands with
  | ok v => simp [Except.mapError]
  | error cause => simp [Except.mapError, Failure.atLine, Cause.failure, eq_comm]

/-- **Failures of evaluation, by kind.** For every name, operands and line: a
syntax failure means that no operation has the name and takes so many operands;
every other failure is one of the operation that does, where it refuses the
operands with that kind of failure. There is no failure besides. -/
theorem evaluate_error_iff (name : String) (operands : List Value) (line : Nat) :
    (∀ kind : ErrorKind,
      (∃ report, evaluate name operands line = .error report ∧ report.kind = kind) ↔
        (kind = .syntaxError ∧ ¬ ∃ op : Operation, op.Named name operands.length) ∨
          ∃ op : Operation, op.Named name operands.length ∧ op.Refuses kind operands) ∧
      ((∃ report, evaluate name operands line = .error report ∧ report.kind = .syntaxError) ↔
        ¬ ∃ op : Operation, op.Named name operands.length) ∧
      ((∃ value, evaluate name operands line = .ok value) ↔
        ∃ op : Operation, op.Named name operands.length ∧ ∀ kind, ¬ op.Refuses kind operands) ∧
      ∀ report, evaluate name operands line = .error report → report.line = line := by
  have hline : ∀ report, evaluate name operands line = .error report → report.line = line := by
    intro report h
    rw [evaluate_eq_error_iff] at h
    cases h <;> rfl
  by_cases hnamed : ∃ op : Operation, op.Named name operands.length
  · obtain ⟨op, hop⟩ := hnamed
    have hexists : (∃ op : Operation, op.Named name operands.length) ↔ True :=
      iff_true_intro ⟨op, hop⟩
    have hthe : ∀ P : Operation → Prop,
        (∃ op' : Operation, op'.Named name operands.length ∧ P op') ↔ P op :=
      fun P => ⟨fun ⟨_, hop', h⟩ => hop'.unique hop ▸ h, fun h => ⟨op, hop, h⟩⟩
    simp only [evaluate_fails_iff_of_named line hop, hexists, hthe]
    refine ⟨fun kind => by simp, ?_, ?_, hline⟩
    · simp [Operation.not_refuses_syntaxError]
    · simp only [← evaluate_fails_iff_of_named line hop]
      cases evaluate name operands line <;> simp
  · have hnone : ∀ P : Operation → Prop,
        ¬ ∃ op : Operation, op.Named name operands.length ∧ P op :=
      fun P ⟨op, hop, _⟩ => hnamed ⟨op, hop⟩
    simp only [hnone, hnamed]
    refine ⟨fun kind => ?_, ?_, ?_, hline⟩ <;> rw [evaluate_eq_error_of_not_named line hnamed] <;>
      simp [Failure.atLine, Cause.failure, Cause.kind, eq_comm]

end RegisterMachine
