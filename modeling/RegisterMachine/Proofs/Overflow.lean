/-
# Results past the doubles

Of finite operands, most operations answer finite values: a real function fails
where its result is none, and the others answer integers. Six do not look at
their result: both logarithms of unbounded integers, the magnitude of a complex
number under both its names, the building of complex numbers, and rounding a
double to tens, hundreds and so on. For each of them it is said when its result
is past the doubles (`Operation.Overflows`): of the operands where the operation
rounds the exact result, and of the length itself for a magnitude, since lengths
are computed to no stated precision. Exactly then a value is answered that is not
finite (`evaluate_not_finite_iff`); it has infinities in it and no NaN
(`isNaN_of_evaluate`).

Key definitions: `ComplexNumber.NormOverflows`, `ComplexNumber.SumOverflows`,
`Binary64.MultipleOverflows`, `Operation.Overflows`.
Key theorems: `Operation.isFinite_invoke_iff`,
`Operation.exists_invoke_of_overflows`, `evaluate_not_finite_iff`,
`isNaN_of_evaluate`.
-/
import RegisterMachine.Proofs.Answers
import RegisterMachine.Proofs.Binary64.Overflow
import RegisterMachine.Proofs.Classification
import RegisterMachine.Proofs.Elementary.Logarithm
import RegisterMachine.Proofs.Snapshot

namespace RegisterMachine

/-! ### Which operands overflow -/

namespace ComplexNumber

/-- The magnitude comes out as an infinity. -/
def NormOverflows (z : ComplexNumber) : Prop := z.norm.isInfinite = true

/-- A part of `z + w * i` is past the doubles. -/
def SumOverflows (z w : ComplexNumber) : Prop :=
  overflowQuanta ≤ (z.re.exact - w.im.exact).natAbs ∨
    overflowQuanta ≤ (z.im.exact + w.re.exact).natAbs

end ComplexNumber

/-- The multiple of `10 ^ shift` nearest to the number is past the doubles. -/
def Binary64.MultipleOverflows (x : Binary64) (shift : Nat) : Prop :=
  integerOverflow ≤ divNearest x.exact.natAbs (unit * 10 ^ shift) * 10 ^ shift

/-- The operation answers an infinity for these operands, which are finite. The logarithms
are here because integers have no bound: they overflow from about `2 ^ 1024` bits on, and
no integer that a machine can hold has so many, whose bits are counted by a 64-bit word. -/
def Operation.Overflows : Operation → List Value → Prop
  | .log, [.big n] | .log10, [.big n] => 0 < n ∧ integerOverflow ≤ cutPlaces n
  | .abs, [.complex z] | .magnitude, [.complex z] => z.NormOverflows
  | .complex, [a, b] => ∃ z w, a.toComplex = .ok z ∧ b.toComplex = .ok w ∧ z.SumOverflows w
  | .round, [.float x, places] =>
    ∃ p : Int, places.toInteger = .ok p ∧ p < 0 ∧ x.MultipleOverflows p.natAbs
  | _, _ => False

/-! ### Finite values -/

namespace Value

theorem isFinite_float (x : Binary64) : (float x).isFinite = x.isFinite := Bool.and_true _

theorem isFinite_complex_iff (z : ComplexNumber) :
    (complex z).isFinite = true ↔ z.re.isFinite = true ∧ z.im.isFinite = true := by
  simp [isFinite, floats]

theorem isFinite_ofInt (n : Int) : (ofInt n).isFinite = true := by
  unfold ofInt
  split <;> rfl

theorem isFinite_of_isInteger {v : Value} (h : v.isInteger = true) : v.isFinite = true := by
  cases v with
  | small n => rfl
  | big n => rfl
  | float x => cases h
  | complex z => cases h

/-- A finite value is taken to a finite double. -/
theorem isFinite_of_toBinary64 {v : Value} {x : Binary64} (hv : v.isFinite = true)
    (h : v.toBinary64 = .ok x) : x.isFinite = true := by
  cases v with
  | small n =>
    obtain rfl := Except.ok.inj h
    rw [Binary64.isFinite_ofInt_iff]
    exact Nat.not_le.1 fun hle => not_tooLarge_small n ⟨n.val, rfl, hle⟩
  | big n =>
    rw [toBinary64] at h
    split at h
    · rename_i hfinite
      obtain rfl := Except.ok.inj h
      exact hfinite
    · cases h
  | float y =>
    obtain rfl := Except.ok.inj h
    rw [← isFinite_float]
    exact hv
  | complex z => cases h

theorem isFinite_of_toComplex {v : Value} {z : ComplexNumber} (hv : v.isFinite = true)
    (h : v.toComplex = .ok z) : z.re.isFinite = true ∧ z.im.isFinite = true := by
  have hreal : ∀ w : Value, w.isFinite = true →
      (w.toBinary64.map fun x => (⟨x, .zero⟩ : ComplexNumber)) = .ok z →
        z.re.isFinite = true ∧ z.im.isFinite = true := by
    intro w hw hz
    cases hx : w.toBinary64 with
    | error f => rw [hx] at hz; cases hz
    | ok x =>
      rw [hx] at hz
      obtain rfl := Except.ok.inj hz
      exact ⟨isFinite_of_toBinary64 hw hx, rfl⟩
  cases v with
  | small n => exact hreal _ hv h
  | big n => exact hreal _ hv h
  | float x => exact hreal _ hv h
  | complex w =>
    obtain rfl := Except.ok.inj h
    exact (isFinite_complex_iff w).1 hv

end Value

/-! ### Operations that answer finite values -/

section Operations

variable {v x y : Value}

theorem isFinite_of_checked {r : Binary64} (h : checked true false r = .ok v) :
    v.isFinite = true := by
  match r with
  | .nan => cases h
  | .infinite _ => cases h
  | .finite s m =>
    obtain rfl := Except.ok.inj h
    rfl

theorem isFinite_of_realFunction {f : Binary64 → Binary64} (hx : x.isFinite = true)
    (h : realFunction f x = .ok v) : v.isFinite = true := by
  obtain ⟨a, ha, hv⟩ := bind_eq_ok_iff.1 h
  have hfinite := Value.isFinite_of_toBinary64 hx ((coerced_eq_ok_iff _ _).1 ha)
  rw [hfinite, Binary64.isNaN_eq_false hfinite] at hv
  exact isFinite_of_checked hv

theorem isFinite_of_directionAngle (hy : y.isFinite = true) (hx : x.isFinite = true)
    (h : directionAngle y x = .ok v) : v.isFinite = true := by
  obtain ⟨b, hb, h⟩ := bind_eq_ok_iff.1 h
  obtain ⟨a, ha, hv⟩ := bind_eq_ok_iff.1 h
  have hfinite := Value.isFinite_of_toBinary64 hy ((coerced_eq_ok_iff _ _).1 hb)
  have hfinite' := Value.isFinite_of_toBinary64 hx ((coerced_eq_ok_iff _ _).1 ha)
  rw [hfinite, hfinite', Binary64.isNaN_eq_false hfinite, Binary64.isNaN_eq_false hfinite'] at hv
  exact isFinite_of_checked hv

theorem isFinite_of_cases (h : (x.isInteger = true ∧ v = x) ∨ ∃ n, v = .ofInt n) :
    v.isFinite = true := by
  rcases h with ⟨hx, rfl⟩ | ⟨n, rfl⟩
  · exact Value.isFinite_of_isInteger hx
  · exact Value.isFinite_ofInt n

/-! ### Operations that overflow -/

theorem isFinite_norm_iff {z : ComplexNumber} (hz : (Value.complex z).isFinite = true) :
    (Value.float z.norm).isFinite = true ↔ ¬ z.NormOverflows := by
  obtain ⟨hre, him⟩ := (Value.isFinite_complex_iff z).1 hz
  have hnorm : z.norm.isNaN = false := Binary64.isNaN_hypot hre him
  rw [Value.isFinite_float, Binary64.isFinite_iff_of_not_nan hnorm, ComplexNumber.NormOverflows]

/-- The logarithms, by what is known of them: `f` of positive doubles is small,
and the logarithm of two is a small double. -/
theorem isFinite_logarithm_value_iff {op : Operation} {f : Binary64 → Binary64}
    {logTwo : Binary64}
    (hf : ∀ m : Magnitude, m.ordinal ≠ 0 → (f (.finite false m)).AtMost Binary64.logarithmBound)
    (hlogTwo : ∃ c : Magnitude, logTwo = .finite false c ∧ c.quanta ≤ 3 * 2 ^ 1072 ∧ c.ordinal ≠ 0)
    (hx : x.isFinite = true)
    (h : (Domain.positive.check op [x] >>= fun _ => logarithm f logTwo x) = .ok v) :
    v.isFinite = true ↔ ¬ ∃ n, x = .big n ∧ 0 < n ∧ integerOverflow ≤ cutPlaces n := by
  obtain ⟨u, hcheck, h⟩ := bind_eq_ok_iff.1 h
  have hreal : realFunction f x = .ok v → (∀ n, x ≠ .big n) →
      (v.isFinite = true ↔ ¬ ∃ n, x = .big n ∧ 0 < n ∧ integerOverflow ≤ cutPlaces n) := by
    intro hv hne
    apply iff_of_true (isFinite_of_realFunction hx hv)
    intro h'
    obtain ⟨n, hn, -⟩ := h'
    exact hne n hn
  cases x with
  | big n =>
    obtain ⟨positive, hsign, hrequire⟩ := bind_eq_ok_iff.1 hcheck
    obtain rfl := Except.ok.inj hsign
    have hn : 0 < n := of_decide_eq_true ((require_eq_ok_iff _ _ _).1 hrequire)
    obtain ⟨c, rfl, hc, hpos⟩ := hlogTwo
    obtain rfl := Except.ok.inj h
    rw [Value.isFinite_float, isFinite_logarithm_iff hf hc hpos hn]
    constructor
    · rintro hlt ⟨_, ⟨⟩, -, hle⟩
      omega
    · intro hnone
      exact Nat.not_le.1 fun hle => hnone ⟨n, rfl, hn, hle⟩
  | small n => exact hreal h (by simp)
  | float a => exact hreal h (by simp)
  | complex z => exact hreal h (by simp)

theorem isFinite_absolute_iff (hx : x.isFinite = true) (h : absolute x = .ok v) :
    v.isFinite = true ↔ ¬ Operation.abs.Overflows [x] := by
  cases x with
  | small n =>
    obtain rfl := Except.ok.inj h
    exact iff_of_true (Value.isFinite_ofInt _) id
  | big n =>
    obtain rfl := Except.ok.inj h
    exact iff_of_true (Value.isFinite_ofInt _) id
  | float a =>
    obtain rfl := Except.ok.inj h
    rw [Value.isFinite_float] at hx ⊢
    refine iff_of_true ?_ id
    match a, hx with
    | .finite _ _, _ => rfl
  | complex z =>
    obtain rfl := Except.ok.inj h
    exact isFinite_norm_iff hx

theorem isFinite_buildComplex_iff (hx : x.isFinite = true) (hy : y.isFinite = true)
    (h : buildComplex x y = .ok v) :
    v.isFinite = true ↔ ¬ Operation.complex.Overflows [x, y] := by
  obtain ⟨z, hz, h⟩ := bind_eq_ok_iff.1 h
  obtain ⟨w, hw, h⟩ := bind_eq_ok_iff.1 h
  rw [coerced_eq_ok_iff] at hz hw
  obtain rfl := Except.ok.inj h
  obtain ⟨hzre, hzim⟩ := Value.isFinite_of_toComplex hx hz
  obtain ⟨hwre, hwim⟩ := Value.isFinite_of_toComplex hy hw
  rw [Value.isFinite_complex_iff, Binary64.isFinite_sub_iff hzre hwim,
    Binary64.isFinite_add_iff hzim hwre]
  constructor
  · rintro ⟨hre, him⟩ ⟨z', w', hz', hw', hover⟩
    obtain rfl := Except.ok.inj (hz.symm.trans hz')
    obtain rfl := Except.ok.inj (hw.symm.trans hw')
    rcases hover with hover | hover
    · exact absurd hre (Nat.not_lt.2 hover)
    · exact absurd him (Nat.not_lt.2 hover)
  · intro hnone
    exact ⟨Nat.not_le.1 fun hle => hnone ⟨z, w, hz, hw, .inl hle⟩,
      Nat.not_le.1 fun hle => hnone ⟨z, w, hz, hw, .inr hle⟩⟩

theorem isFinite_roundToPlaces_iff (hx : x.isFinite = true) (h : roundToPlaces x y = .ok v) :
    v.isFinite = true ↔ ¬ Operation.round.Overflows [x, y] := by
  unfold roundToPlaces at h
  split at h
  · cases h
  · rename_i places hplaces
    cases x with
    | small n =>
      obtain rfl := Except.ok.inj h
      exact iff_of_true (Value.isFinite_ofInt _) id
    | big n =>
      obtain rfl := Except.ok.inj h
      exact iff_of_true (Value.isFinite_ofInt _) id
    | complex z => cases h
    | float a =>
      obtain rfl := Except.ok.inj h
      rw [Value.isFinite_float] at hx ⊢
      rw [Binary64.roundPlaces_saturate, Binary64.isFinite_roundPlaces_iff hx]
      refine not_congr ⟨fun ⟨hneg, hover⟩ => ⟨places, hplaces, hneg, hover⟩, ?_⟩
      intro h'
      obtain ⟨p, hp, hneg, hover⟩ := h'
      obtain rfl := Except.ok.inj (hplaces.symm.trans hp)
      exact ⟨hneg, hover⟩

theorem isFinite_of_part {f : ComplexNumber → Value} (hx : x.isFinite = true)
    (hf : ∀ z : ComplexNumber, z.re.isFinite = true → z.im.isFinite = true →
      (f z).isFinite = true) (h : complexFunction f x = .ok v) : v.isFinite = true := by
  obtain ⟨z, rfl, rfl⟩ := exists_of_complexFunction h
  obtain ⟨hre, him⟩ := (Value.isFinite_complex_iff z).1 hx
  exact hf z hre him

/-! ### Every operation -/

/-- An operation that answers has passed the check of its domain. -/
theorem Descriptor.invoke_eq {d : Descriptor} {operands : List Value}
    (h : operands.length ∈ d.arities) :
    d.invoke operands = d.domain.check d.operation operands >>= fun _ =>
      d.operation.compute operands := Descriptor.invoke_of_accepts (Descriptor.accepts_iff.2 h)

theorem Operation.isFinite_invoke_one_iff {op : Operation} (hx : x.isFinite = true)
    (harity : 1 ∈ op.descriptor.arities) (h : op.descriptor.invoke [x] = .ok v) :
    v.isFinite = true ↔ ¬ op.Overflows [x] := by
  rw [Descriptor.invoke_eq harity] at h
  cases op with
  | sin => exact iff_of_true (isFinite_of_realFunction hx h) id
  | cos => exact iff_of_true (isFinite_of_realFunction hx h) id
  | tan => exact iff_of_true (isFinite_of_realFunction hx h) id
  | asin => exact iff_of_true (isFinite_of_realFunction hx h) id
  | acos => exact iff_of_true (isFinite_of_realFunction hx h) id
  | atan => exact iff_of_true (isFinite_of_realFunction hx h) id
  | exp => exact iff_of_true (isFinite_of_realFunction hx h) id
  | log =>
    refine (isFinite_logarithm_value_iff (fun _ => Binary64.atMost_log) logTwo_eq hx h).trans ?_
    cases x <;> simp [Operation.Overflows]
  | log10 =>
    refine (isFinite_logarithm_value_iff (fun _ => Binary64.atMost_log10) logTenOfTwo_eq hx
      h).trans ?_
    cases x <;> simp [Operation.Overflows]
  | sqrt =>
    obtain ⟨_, -, hv⟩ := bind_eq_ok_iff.1 h
    exact iff_of_true (isFinite_of_realFunction hx hv) id
  | abs => exact isFinite_absolute_iff hx h
  | floor => exact iff_of_true (isFinite_of_cases (integralPart_cases h)) id
  | ceil => exact iff_of_true (isFinite_of_cases (integralPart_cases h)) id
  | round =>
    apply iff_of_true (isFinite_of_cases (roundToInteger_cases h))
    cases x <;> exact id
  | factorial =>
    obtain ⟨_, -, hv⟩ := bind_eq_ok_iff.1 h
    obtain ⟨n, rfl⟩ := exists_ofInt_of_factorial hv
    exact iff_of_true (Value.isFinite_ofInt n) id
  | realPart =>
    obtain ⟨_, -, hv⟩ := bind_eq_ok_iff.1 h
    refine iff_of_true (isFinite_of_part hx (fun z hre _ => ?_) hv) id
    rw [Value.isFinite_float, hre]
  | imagPart =>
    obtain ⟨_, -, hv⟩ := bind_eq_ok_iff.1 h
    refine iff_of_true (isFinite_of_part hx (fun z _ him => ?_) hv) id
    rw [Value.isFinite_float, him]
  | conjugate =>
    obtain ⟨_, -, hv⟩ := bind_eq_ok_iff.1 h
    refine iff_of_true (isFinite_of_part hx (fun z hre him => ?_) hv) id
    rw [Value.isFinite_complex_iff, ComplexNumber.conj, Binary64.isFinite_neg]
    exact ⟨hre, him⟩
  | magnitude =>
    obtain ⟨_, -, hv⟩ := bind_eq_ok_iff.1 h
    obtain ⟨z, rfl, rfl⟩ := exists_of_complexFunction hv
    exact isFinite_norm_iff hx
  | phase =>
    obtain ⟨_, -, hv⟩ := bind_eq_ok_iff.1 h
    refine iff_of_true (isFinite_of_part hx (fun z hre him => ?_) hv) id
    rw [Value.isFinite_float, ComplexNumber.arg]
    exact Binary64.isFinite_atan2 (Binary64.isNaN_eq_false him) (Binary64.isNaN_eq_false hre)
  | atan2 => simp [Operation.descriptor] at harity
  | gcd => simp [Operation.descriptor] at harity
  | lcm => simp [Operation.descriptor] at harity
  | complex => simp [Operation.descriptor] at harity

theorem Operation.isFinite_invoke_two_iff {op : Operation} (hx : x.isFinite = true)
    (hy : y.isFinite = true) (harity : 2 ∈ op.descriptor.arities)
    (h : op.descriptor.invoke [x, y] = .ok v) : v.isFinite = true ↔ ¬ op.Overflows [x, y] := by
  rw [Descriptor.invoke_eq harity] at h
  cases op <;> try simp [Operation.descriptor] at harity
  case atan2 => exact iff_of_true (isFinite_of_directionAngle hx hy h) id
  case complex => exact isFinite_buildComplex_iff hx hy h
  case gcd =>
    obtain ⟨_, -, hv⟩ := bind_eq_ok_iff.1 h
    obtain ⟨n, rfl⟩ := exists_ofInt_of_greatestCommonDivisor hv
    exact iff_of_true (Value.isFinite_ofInt n) id
  case lcm =>
    obtain ⟨_, -, hv⟩ := bind_eq_ok_iff.1 h
    obtain ⟨n, rfl⟩ := exists_ofInt_of_leastCommonMultiple hv
    exact iff_of_true (Value.isFinite_ofInt n) id
  case round =>
    obtain ⟨_, -, hv⟩ := bind_eq_ok_iff.1 h
    exact isFinite_roundToPlaces_iff hx hv

/-- **An operation answers a finite value unless it overflows.** -/
theorem Operation.isFinite_invoke_iff {op : Operation} {operands : List Value}
    (hfinite : ∀ x ∈ operands, x.isFinite = true)
    (harity : operands.length ∈ op.descriptor.arities)
    (h : op.descriptor.invoke operands = .ok v) :
    v.isFinite = true ↔ ¬ op.Overflows operands := by
  match operands, harity with
  | [], harity => cases op <;> simp [Operation.descriptor] at harity
  | [x], harity => exact Operation.isFinite_invoke_one_iff (hfinite x (by simp)) harity h
  | [x, y], harity =>
    exact Operation.isFinite_invoke_two_iff (hfinite x (by simp)) (hfinite y (by simp)) harity h
  | _ :: _ :: _ :: _, harity => cases op <;> simp [Operation.descriptor] at harity

/-- What overflows is not refused. -/
theorem Operation.not_refuses_of_overflows {op : Operation} {operands : List Value}
    (h : op.Overflows operands) (kind : ErrorKind) : ¬ op.Refuses kind operands := by
  unfold Operation.Overflows at h
  split at h
  · intro h'
    rcases h' with ⟨-, hcomplex⟩ | ⟨-, hsign⟩
    · cases hcomplex
    · exact absurd h.1 (Int.not_lt.2 hsign)
  · intro h'
    rcases h' with ⟨-, hcomplex⟩ | ⟨-, hsign⟩
    · cases hcomplex
    · exact absurd h.1 (Int.not_lt.2 hsign)
  · exact id
  · intro h'
    obtain ⟨-, hcomplex⟩ := h'
    cases hcomplex
  · rename_i a b
    obtain ⟨z, w, hz, hw, -⟩ := h
    intro h'
    rcases h' with ⟨-, hlarge | hlarge⟩
    · obtain ⟨f, hf⟩ := (Value.toComplex_eq_error_iff a).2 hlarge
      cases hz.symm.trans hf
    · obtain ⟨f, hf⟩ := (Value.toComplex_eq_error_iff b).2 hlarge
      cases hw.symm.trans hf
  · rename_i a places
    obtain ⟨p, hp, -⟩ := h
    intro h'
    rcases h' with ⟨-, hplaces | hcomplex⟩
    · exact hplaces ((Value.exists_toInteger_iff places).1 ⟨p, hp⟩)
    · cases hcomplex
  · exact h.elim

theorem Operation.exists_invoke_of_overflows {op : Operation} {operands : List Value}
    (harity : operands.length ∈ op.descriptor.arities) (h : op.Overflows operands) :
    ∃ v, op.descriptor.invoke operands = .ok v := by
  cases hv : op.descriptor.invoke operands with
  | ok v => exact ⟨v, rfl⟩
  | error cause =>
    have hfails : Fails (op.descriptor.invoke operands) cause.kind := ⟨cause, hv, rfl⟩
    exact absurd ((Operation.fails_invoke_iff harity).1 hfails)
      (Operation.not_refuses_of_overflows h _)

theorem Value.isNaN_of_isFinite {a : Binary64} (hv : v.isFinite = true) (ha : a ∈ v.floats) :
    a.isNaN = false := Binary64.isNaN_eq_false (List.all_eq_true.1 hv a ha)

theorem isNaN_of_logarithm {f : Binary64 → Binary64} {logTwo a : Binary64} {n : Int}
    (hf : ∀ m : Magnitude, m.ordinal ≠ 0 → (f (.finite false m)).AtMost Binary64.logarithmBound)
    (hlogTwo : ∃ c : Magnitude, logTwo = .finite false c ∧ c.quanta ≤ 3 * 2 ^ 1072 ∧ c.ordinal ≠ 0)
    (hn : 0 < n) (h : logarithm f logTwo (.big n) = .ok v) (ha : a ∈ v.floats) :
    a.isNaN = false := by
  obtain ⟨c, rfl, hc, hpos⟩ := hlogTwo
  obtain rfl := Except.ok.inj h
  obtain rfl := List.mem_singleton.1 ha
  exact isNaN_logarithm hf hc hpos hn

theorem Operation.isNaN_of_overflows {op : Operation} {operands : List Value} {a : Binary64}
    (hfinite : ∀ x ∈ operands, x.isFinite = true) (hover : op.Overflows operands)
    (h : op.compute operands = .ok v) (ha : a ∈ v.floats) : a.isNaN = false := by
  unfold Operation.Overflows at hover
  split at hover
  · exact isNaN_of_logarithm (fun _ => Binary64.atMost_log) logTwo_eq hover.1 h ha
  · exact isNaN_of_logarithm (fun _ => Binary64.atMost_log10) logTenOfTwo_eq hover.1 h ha
  · obtain ⟨hre, him⟩ := (Value.isFinite_complex_iff _).1 (hfinite _ List.mem_cons_self)
    obtain rfl := Except.ok.inj h
    obtain rfl := List.mem_singleton.1 ha
    exact Binary64.isNaN_hypot hre him
  · obtain ⟨hre, him⟩ := (Value.isFinite_complex_iff _).1 (hfinite _ List.mem_cons_self)
    obtain rfl := Except.ok.inj h
    obtain rfl := List.mem_singleton.1 ha
    exact Binary64.isNaN_hypot hre him
  · obtain ⟨z, hz, h⟩ := bind_eq_ok_iff.1 h
    obtain ⟨w, hw, h⟩ := bind_eq_ok_iff.1 h
    rw [coerced_eq_ok_iff] at hz hw
    obtain rfl := Except.ok.inj h
    obtain ⟨hzre, hzim⟩ := Value.isFinite_of_toComplex (hfinite _ (by simp)) hz
    obtain ⟨hwre, hwim⟩ := Value.isFinite_of_toComplex (hfinite _ (by simp)) hw
    rcases List.mem_cons.1 ha with rfl | ha
    · exact Binary64.isNaN_sub hzre hwim
    · obtain rfl := List.mem_singleton.1 ha
      exact Binary64.isNaN_add hzim (Binary64.isNaN_eq_false hwre)
  · rename_i b places
    have hb : b.isFinite = true := by
      rw [← Value.isFinite_float]
      exact hfinite _ List.mem_cons_self
    obtain ⟨p, hp, -⟩ := hover
    rw [Operation.compute, RegisterMachine.round, roundToPlaces, hp] at h
    obtain rfl := Except.ok.inj h
    obtain rfl := List.mem_singleton.1 ha
    exact Binary64.isNaN_roundPlaces (Binary64.isNaN_eq_false hb) _
  · exact hover.elim

/-- **No operation answers a NaN to finite operands.** -/
theorem Operation.isNaN_invoke {op : Operation} {operands : List Value} {a : Binary64}
    (hfinite : ∀ x ∈ operands, x.isFinite = true)
    (harity : operands.length ∈ op.descriptor.arities)
    (h : op.descriptor.invoke operands = .ok v) (ha : a ∈ v.floats) : a.isNaN = false := by
  by_cases hover : op.Overflows operands
  · rw [Descriptor.invoke_eq harity] at h
    obtain ⟨_, -, hv⟩ := bind_eq_ok_iff.1 h
    rw [Operation.operation_descriptor] at hv
    exact Operation.isNaN_of_overflows hfinite hover hv ha
  · have hv := (Operation.isFinite_invoke_iff hfinite harity h).2 hover
    exact Value.isNaN_of_isFinite hv ha

end Operations

/-! ### Evaluation by name -/

theorem exists_invoke_of_evaluate {name : String} {operands : List Value} {line : Nat} {v : Value}
    (h : evaluate name operands line = .ok v) :
    ∃ op : Operation, op.Named name operands.length ∧ op.descriptor.invoke operands = .ok v := by
  by_cases hnamed : ∃ op : Operation, op.Named name operands.length
  · obtain ⟨op, hop⟩ := hnamed
    exact ⟨op, hop, (evaluate_eq_ok_iff_of_named line hop).1 h⟩
  · rw [evaluate_eq_error_of_not_named line hnamed] at h
    cases h

theorem isNaN_of_evaluate {name : String} {operands : List Value} {line : Nat} {v : Value}
    {a : Binary64} (hfinite : ∀ x ∈ operands, x.isFinite = true)
    (h : evaluate name operands line = .ok v) (ha : a ∈ v.floats) : a.isNaN = false := by
  obtain ⟨op, hop, hinvoke⟩ := exists_invoke_of_evaluate h
  exact Operation.isNaN_invoke hfinite hop.2 hinvoke ha

/-- **Which evaluations of finite operands answer a value that is not finite.** -/
theorem evaluate_not_finite_iff {name : String} {operands : List Value} {line : Nat}
    (hfinite : ∀ x ∈ operands, x.isFinite = true) :
    (∃ v, evaluate name operands line = .ok v ∧ v.isFinite = false) ↔
      ∃ op : Operation, op.Named name operands.length ∧ op.Overflows operands := by
  constructor
  · intro h
    obtain ⟨v, hv, hnot⟩ := h
    obtain ⟨op, hop, hinvoke⟩ := exists_invoke_of_evaluate hv
    refine ⟨op, hop, ?_⟩
    by_contra hover
    rw [(Operation.isFinite_invoke_iff hfinite hop.2 hinvoke).2 hover] at hnot
    cases hnot
  · intro h
    obtain ⟨op, hop, hover⟩ := h
    obtain ⟨v, hv⟩ := Operation.exists_invoke_of_overflows hop.2 hover
    refine ⟨v, ?_, ?_⟩
    · rw [evaluate_of_named line hop, hv]
      rfl
    · rw [← Bool.not_eq_true, Operation.isFinite_invoke_iff hfinite hop.2 hv]
      exact not_not_intro hover

end RegisterMachine
