/-
# The two encodings of an integer

An integer that fits a word has two encodings, the word and the unbounded
integer. Operations look at the encoding in many places: a word is taken to a
double directly and an unbounded integer only if the double is finite, the sign
is read off the one or the other, floor, ceiling and rounding hand their operand
on as it is, and a logarithm has an algorithm for each. They answer the same all
the same, failures included, up to the encoding of an integer that is answered
(`Value.fold`). A logarithm does so below `2 ^ 53`, where nothing is cut off an
unbounded integer; its value there carries no minus sign, so that the zero which
is added does not change it.

The proof is one observation for each function (`Value.apply_fold`): what
answers the same for the two encodings of every word does not see `fold`.

Key definitions: `Value.fold`, `Operation.IsLogarithm`, `Recoded`.
Key theorems: `Value.apply_fold`, `Domain.check_fold`, `Operation.invoke_fold`,
`logarithm_small`, `invoke_recoded`.
-/
import RegisterMachine.Proofs.Classification
import RegisterMachine.Proofs.Elementary.Integers

namespace RegisterMachine

namespace Value

/-! ### Folding -/

/-- The value, an integer as a word where it fits. -/
def fold : Value → Value
  | .big n => .ofInt n
  | v => v

@[simp]
theorem fold_small (w : Word) : (small w).fold = .small w := rfl

@[simp]
theorem fold_big_val (w : Word) : (big w.val).fold = .small w := ofInt_val w

/-- An integer is a word, or its only encoding is the unbounded one. -/
theorem ofInt_cases (n : Int) : (∃ w : Word, w.val = n ∧ ofInt n = .small w) ∨ ofInt n = .big n := by
  unfold ofInt Word.ofInt?
  by_cases h : -2 ^ 63 ≤ n ∧ n < 2 ^ 63
  · rw [dif_pos h]
    exact .inl ⟨⟨n, h.1, h.2⟩, rfl, rfl⟩
  · rw [dif_neg h]
    exact .inr rfl

/-- **What answers the same for both encodings of every word does not see the
encoding of an integer.** -/
theorem apply_fold {α : Type} (g : Value → α) (h : ∀ w : Word, g (.small w) = g (.big w.val))
    (v : Value) : g v.fold = g v := by
  cases v with
  | small n => rfl
  | float x => rfl
  | complex z => rfl
  | big n =>
    show g (ofInt n) = g (.big n)
    rcases ofInt_cases n with ⟨w, rfl, hw⟩ | hbig
    · rw [hw, h]
    · rw [hbig]

@[simp]
theorem exactInt?_fold (v : Value) : v.fold.exactInt? = v.exactInt? :=
  apply_fold exactInt? (fun _ => rfl) v

theorem fold_eq_of_exactInt? {v : Value} {n : Int} (h : v.exactInt? = some n) :
    v.fold = .ofInt n := by
  cases v with
  | small w =>
    obtain rfl := Option.some.inj h
    exact (ofInt_val w).symm
  | big m =>
    obtain rfl := Option.some.inj h
    rfl
  | float x => cases h
  | complex z => cases h

@[simp]
theorem isComplex_fold (v : Value) : v.fold.isComplex = v.isComplex :=
  apply_fold isComplex (fun _ => rfl) v

theorem toBinary64_big_val (w : Word) : (big w.val).toBinary64 = .ok (.ofInt w.val) := by
  have hbound : 2 ^ 63 < integerOverflow := by decide +kernel
  have hlow := w.le_val
  have hhigh := w.val_lt
  rw [toBinary64, if_pos ((Binary64.isFinite_ofInt_iff _).2 (by omega))]

@[simp]
theorem toBinary64_fold (v : Value) : v.fold.toBinary64 = v.toBinary64 :=
  apply_fold toBinary64 (fun w => (toBinary64_big_val w).symm) v

@[simp]
theorem toComplex_fold (v : Value) : v.fold.toComplex = v.toComplex := by
  refine apply_fold toComplex (fun w => ?_) v
  rw [toComplex, toComplex, toBinary64_big_val]
  · rfl
  · simp
  · simp

@[simp]
theorem toInteger_fold (v : Value) : v.fold.toInteger = v.toInteger :=
  apply_fold toInteger (fun _ => rfl) v

@[simp]
theorem isIntegral_fold (v : Value) : v.fold.isIntegral = v.isIntegral :=
  apply_fold isIntegral (fun _ => rfl) v

end Value

/-! ### Domains -/

namespace Domain

@[simp]
theorem isPositive_fold (v : Value) : isPositive v.fold = isPositive v :=
  Value.apply_fold isPositive isPositive_small v

/-- **No domain sees the encoding of an integer.** -/
theorem check_fold (domain : Domain) (op : Operation) (operands : List Value) :
    domain.check op (operands.map Value.fold) = domain.check op operands := by
  cases domain with
  | unconstrained => rfl
  | positive => cases operands <;> simp [check]
  | nonNegative => cases operands <;> simp [check, isNonNegative]
  | integers => simp [check, List.all_map, Function.comp_def]
  | decimalPlaces =>
    rcases operands with _ | ⟨x, _ | ⟨y, rest⟩⟩
    · rfl
    · rfl
    · simp [check]
  | nonNegativeInteger => cases operands <;> simp [check]
  | complexOnly => cases operands <;> simp [check]

end Domain

/-! ### Computations -/

section Computations

variable (x y : Value)

theorem realFunction_fold (f : Binary64 → Binary64) : realFunction f x.fold = realFunction f x := by
  rw [realFunction, realFunction, Value.toBinary64_fold]

theorem directionAngle_fold : directionAngle y.fold x.fold = directionAngle y x := by
  rw [directionAngle, directionAngle, Value.toBinary64_fold, Value.toBinary64_fold]

theorem absolute_fold : absolute x.fold = absolute x := Value.apply_fold absolute (fun _ => rfl) x

theorem greatestCommonDivisor_fold :
    greatestCommonDivisor x.fold y.fold = greatestCommonDivisor x y := by
  rw [greatestCommonDivisor, greatestCommonDivisor, Value.toInteger_fold, Value.toInteger_fold]

theorem leastCommonMultiple_fold :
    leastCommonMultiple x.fold y.fold = leastCommonMultiple x y := by
  rw [leastCommonMultiple, leastCommonMultiple, Value.toInteger_fold, Value.toInteger_fold]

theorem factorial_fold : factorial x.fold = factorial x := by
  rw [factorial, factorial, Value.exactInt?_fold]

theorem roundToPlaces_fold : roundToPlaces x.fold y.fold = roundToPlaces x y := by
  rw [Value.apply_fold (fun x => roundToPlaces x y.fold) (fun _ => rfl) x, roundToPlaces,
    roundToPlaces, Value.toInteger_fold]

theorem buildComplex_fold : buildComplex x.fold y.fold = buildComplex x y := by
  rw [buildComplex, buildComplex, Value.toComplex_fold, Value.toComplex_fold]

theorem complexFunction_fold (f : ComplexNumber → Value) :
    complexFunction f x.fold = complexFunction f x :=
  Value.apply_fold (complexFunction f) (fun _ => rfl) x

theorem integralPart_fold (f : Binary64 → Binary64) :
    (integralPart f x.fold).map Value.fold = (integralPart f x).map Value.fold :=
  Value.apply_fold (fun x => (integralPart f x).map Value.fold)
    (fun w => by simp [integralPart, Except.map]) x

theorem roundToInteger_fold :
    (roundToInteger x.fold).map Value.fold = (roundToInteger x).map Value.fold :=
  Value.apply_fold (fun x => (roundToInteger x).map Value.fold)
    (fun w => by simp [roundToInteger, Except.map]) x

end Computations

/-! ### Operations -/

namespace Operation

/-- The operation is one of the two logarithms. -/
def IsLogarithm (op : Operation) : Prop := op = .log ∨ op = .log10

variable {op : Operation}

theorem compute_one_fold (hlog : ¬ op.IsLogarithm) (x : Value) :
    (op.compute [x.fold]).map Value.fold = (op.compute [x]).map Value.fold := by
  cases op with
  | sin => exact congrArg _ (realFunction_fold x .sin)
  | cos => exact congrArg _ (realFunction_fold x .cos)
  | tan => exact congrArg _ (realFunction_fold x .tan)
  | asin => exact congrArg _ (realFunction_fold x .asin)
  | acos => exact congrArg _ (realFunction_fold x .acos)
  | atan => exact congrArg _ (realFunction_fold x .atan)
  | exp => exact congrArg _ (realFunction_fold x .exp)
  | sqrt => exact congrArg _ (realFunction_fold x .sqrt)
  | log => exact absurd (.inl rfl) hlog
  | log10 => exact absurd (.inr rfl) hlog
  | abs => exact congrArg _ (absolute_fold x)
  | floor => exact integralPart_fold x _
  | ceil => exact integralPart_fold x _
  | round => exact roundToInteger_fold x
  | factorial => exact congrArg _ (factorial_fold x)
  | realPart => exact congrArg _ (complexFunction_fold x _)
  | imagPart => exact congrArg _ (complexFunction_fold x _)
  | conjugate => exact congrArg _ (complexFunction_fold x _)
  | magnitude => exact congrArg _ (complexFunction_fold x _)
  | phase => exact congrArg _ (complexFunction_fold x _)
  | atan2 => rfl
  | gcd => rfl
  | lcm => rfl
  | complex => rfl

theorem compute_two_fold (h : 2 ∈ op.descriptor.arities) (x y : Value) :
    op.compute [x.fold, y.fold] = op.compute [x, y] := by
  cases op <;> try simp [descriptor] at h
  case atan2 => exact directionAngle_fold y x
  case gcd => exact greatestCommonDivisor_fold x y
  case lcm => exact leastCommonMultiple_fold x y
  case round => exact roundToPlaces_fold x y
  case complex => exact buildComplex_fold x y

theorem mem_arities {count : Nat} (h : count ∈ op.descriptor.arities) : count = 1 ∨ count = 2 := by
  cases op <;> simp [descriptor] at h <;> omega

/-- **No operation but a logarithm sees the encodings of its operands.** -/
theorem invoke_fold (hlog : ¬ op.IsLogarithm) (operands : List Value) :
    (op.descriptor.invoke (operands.map Value.fold)).map Value.fold =
      (op.descriptor.invoke operands).map Value.fold := by
  unfold Descriptor.invoke
  rw [List.length_map, Domain.check_fold, operation_descriptor]
  split
  · rename_i haccepts
    have harity := Descriptor.accepts_iff.1 haccepts
    cases op.descriptor.domain.check op operands with
    | error cause => rfl
    | ok u =>
      show (op.compute (operands.map Value.fold)).map Value.fold =
        (op.compute operands).map Value.fold
      rcases mem_arities harity with hlen | hlen
      · obtain ⟨x, rfl⟩ := List.length_eq_one_iff.1 hlen
        exact compute_one_fold hlog x
      · obtain ⟨x, y, rfl⟩ := List.length_eq_two.1 hlen
        exact congrArg _ (compute_two_fold harity x y)
  · rfl

end Operation

/-! ### Logarithms -/

namespace Binary64

theorem nearest_zero (negative : Bool) (d : Nat) :
    nearest negative 0 d = .finite negative .zero := by
  have hlt : nearestOrdinal 0 d < ordinalBound := by
    rw [nearestOrdinal_zero]
    decide
  rw [nearest, dif_pos hlt]
  simp [Magnitude.zero]

theorem ofInt_zero : ofInt 0 = .zero := by
  rw [ofInt, Int.natAbs_zero, Nat.zero_mul, nearest_zero]
  rfl

theorem zero_mul_finite (c : Magnitude) : zero.mul (.finite false c) = .zero := by
  have hquanta : Magnitude.zero.quanta = 0 := by decide
  rw [zero, mul, hquanta, Nat.zero_mul, nearest_zero]
  rfl

/-- Adding a zero changes nothing but a zero, which keeps a minus sign only if both have
one. -/
theorem add_signed_zero (s t : Bool) (m : Magnitude) :
    (finite s m).add (finite t .zero) = finite (if m = .zero then s && t else s) m := by
  have hquanta : Magnitude.zero.quanta = 0 := by decide
  have hsum : signed s m.quanta + signed t Magnitude.zero.quanta = signed s m.quanta := by
    cases t <;> simp [hquanta]
  have hself := nearest_quanta (if m = .zero then s && t else s) m Nat.one_pos
  rw [Nat.mul_one] at hself
  rw [add, hsum, natAbs_signed, ← hself]
  congr 1
  by_cases hm : m = .zero
  · cases s <;> simp [hm, hquanta]
  · have hne : m.quanta ≠ 0 := fun h => hm (Magnitude.quanta_injective (h.trans hquanta.symm))
    have hsigned : signed s m.quanta ≠ 0 := by
      cases s <;> simpa using hne
    rw [if_neg hm, if_neg hsigned, decide_signed_lt_zero s hne]

theorem finite_add_zero (m : Magnitude) : (finite false m).add .zero = .finite false m := by
  rw [zero, add_signed_zero, Bool.false_and, ite_self]

end Binary64

section Logarithm

variable {f : Binary64 → Binary64} {c : Magnitude} {w : Word}

theorem cutPlaces_eq_zero {n : Int} (hn : 0 < n) (hn' : n < 2 ^ 53) : cutPlaces n = 0 := by
  have hlt : n.natAbs.log2 < 53 := (Nat.log2_lt (by omega)).2 (by omega)
  unfold cutPlaces
  omega

/-- **A logarithm is the same for both encodings of a positive integer below
`2 ^ 53`.** -/
theorem logarithm_small
    (hf : ∀ k : Nat, 0 < k → k ≤ 2 ^ 53 → ∃ m, f (.ofInt k) = .finite false m) (hw : 0 < w.val)
    (hw' : w.val < 2 ^ 53) :
    logarithm f (.finite false c) (.small w) = logarithm f (.finite false c) (.big w.val) := by
  obtain ⟨k, hk⟩ := Int.eq_ofNat_of_zero_le hw.le
  rw [hk] at hw hw'
  obtain ⟨m, hm⟩ := hf k (by omega) (by omega)
  have hcut := cutPlaces_eq_zero hw hw'
  have hleading : leadingBits k = k := by simp [leadingBits, hcut]
  have hsmall : (Value.small w).toBinary64 = .ok (.ofInt k) := by rw [Value.toBinary64, hk]
  have hreal : realFunction f (.small w) = .ok (.float (.finite false m)) := by
    rw [realFunction, hsmall]
    show checked _ _ (f (.ofInt k)) = _
    rw [hm]
    rfl
  show realFunction f (.small w) = .ok (.float _)
  rw [hreal, hk, hleading, hcut, hm, Nat.cast_zero, Binary64.ofInt_zero,
    Binary64.zero_mul_finite, Binary64.finite_add_zero]

end Logarithm

namespace Operation

theorem compute_log (x : Value) : log.compute [x] = logarithm .log logTwo x := rfl

theorem compute_log10 (x : Value) : log10.compute [x] = logarithm .log10 logTenOfTwo x := rfl

theorem compute_logarithm_small {op : Operation} (hlog : op.IsLogarithm) {w : Word}
    (hw : 0 < w.val) (hw' : w.val < 2 ^ 53) :
    op.compute [.small w] = op.compute [.big w.val] := by
  rcases hlog with rfl | rfl
  · obtain ⟨c, hc, -⟩ := logTwo_eq
    rw [compute_log, compute_log, hc]
    exact logarithm_small (fun _ => Binary64.exists_log_ofInt_eq) hw hw'
  · obtain ⟨c, hc, -⟩ := logTenOfTwo_eq
    rw [compute_log10, compute_log10, hc]
    exact logarithm_small (fun _ => Binary64.exists_log10_ofInt_eq) hw hw'

/-- **A logarithm does not see the encoding of an integer below `2 ^ 53`.** Where
the integer is not positive, the check of the domain refuses both alike. -/
theorem invoke_logarithm_small {op : Operation} (hlog : op.IsLogarithm) {w : Word}
    (hw' : w.val < 2 ^ 53) :
    op.descriptor.invoke [.small w] = op.descriptor.invoke [.big w.val] := by
  have haccepts : op.descriptor.accepts 1 = true := by rcases hlog with rfl | rfl <;> rfl
  have hdomain : op.descriptor.domain = .positive := by rcases hlog with rfl | rfl <;> rfl
  have hcheck := check_positive_of_exactInt? op (x := .small w) rfl
  have hcheck' := check_positive_of_exactInt? op (x := .big w.val) rfl
  rw [Descriptor.invoke_of_accepts haccepts, Descriptor.invoke_of_accepts haccepts,
    operation_descriptor, hdomain, hcheck, hcheck']
  by_cases hw : 0 < w.val
  · rw [compute_logarithm_small hlog hw hw']
  · simp only [Domain.require, decide_eq_false hw, Bool.false_eq_true, if_false, bind, Except.bind]

end Operation

/-! ### Any operands, in either encoding -/

/-- The values are the same, or they are one integer in its two encodings; for a
logarithm it has to be below `2 ^ 53`. -/
inductive Recoded (op : Operation) : Value → Value → Prop
  | same (v : Value) : Recoded op v v
  | widened (w : Word) (below : op.IsLogarithm → w.val < 2 ^ 53) :
      Recoded op (.small w) (.big w.val)
  | narrowed (w : Word) (below : op.IsLogarithm → w.val < 2 ^ 53) :
      Recoded op (.big w.val) (.small w)

section Recoded

variable {op : Operation} {xs ys : List Value}

theorem Recoded.fold_eq {x y : Value} (h : Recoded op x y) : x.fold = y.fold := by
  cases h with
  | same => rfl
  | widened w => exact (Value.fold_big_val w).symm
  | narrowed w => exact Value.fold_big_val w

theorem map_fold_eq (h : List.Forall₂ (Recoded op) xs ys) :
    xs.map Value.fold = ys.map Value.fold := by
  induction h with
  | nil => rfl
  | cons hhead _ ih => rw [List.map_cons, List.map_cons, hhead.fold_eq, ih]

theorem invoke_logarithm_recoded (hlog : op.IsLogarithm) {x y : Value} (h : Recoded op x y) :
    op.descriptor.invoke [x] = op.descriptor.invoke [y] := by
  cases h with
  | same => rfl
  | widened w below => exact Operation.invoke_logarithm_small hlog (below hlog)
  | narrowed w below => exact (Operation.invoke_logarithm_small hlog (below hlog)).symm

/-- An operation answers the same for operands in other encodings, up to the
encoding of its answer. -/
theorem map_fold_invoke_eq (h : List.Forall₂ (Recoded op) xs ys) :
    (op.descriptor.invoke xs).map Value.fold = (op.descriptor.invoke ys).map Value.fold := by
  by_cases hlog : op.IsLogarithm
  · by_cases haccepts : op.descriptor.accepts xs.length = true
    · have hone : xs.length = 1 := by
        rcases hlog with rfl | rfl <;> exact List.mem_singleton.1 (Descriptor.accepts_iff.1 haccepts)
      obtain ⟨x, rfl⟩ := List.length_eq_one_iff.1 hone
      cases h with
      | cons hhead htail =>
        cases htail
        rw [invoke_logarithm_recoded hlog hhead]
    · have haccepts' : ¬ op.descriptor.accepts ys.length = true := h.length_eq ▸ haccepts
      rw [Descriptor.invoke_of_not_accepts haccepts, Descriptor.invoke_of_not_accepts haccepts']
  · calc (op.descriptor.invoke xs).map Value.fold
        = (op.descriptor.invoke (xs.map Value.fold)).map Value.fold :=
          (Operation.invoke_fold hlog xs).symm
      _ = (op.descriptor.invoke (ys.map Value.fold)).map Value.fold := by rw [map_fold_eq h]
      _ = (op.descriptor.invoke ys).map Value.fold := Operation.invoke_fold hlog ys

/-- **The encoding of integer operands does not matter.** If some operands are
replaced by the same integers in the other encoding, an operation fails or
succeeds as before; a failure has the same cause, and so the same kind and
message, and an answer is the same up to the encoding of an integer. This holds
for any number of operands, for the logarithms of integers below `2 ^ 53`, and
for evaluation by name. -/
theorem invoke_recoded (h : List.Forall₂ (Recoded op) xs ys) :
    (op.descriptor.invoke xs).map Value.fold = (op.descriptor.invoke ys).map Value.fold ∧
      ∀ name line, Operation.ofName? name = some op →
        (evaluate name xs line).map Value.fold = (evaluate name ys line).map Value.fold := by
  refine ⟨map_fold_invoke_eq h, fun name line hname => ?_⟩
  have hmap : ∀ (r : Answer) (g : Cause → Report),
      (r.mapError g).map Value.fold = (r.map Value.fold).mapError g := by
    intro r g
    cases r <;> rfl
  rw [evaluate, evaluate, ← h.length_eq]
  cases hd : lookup? name xs.length with
  | none => rfl
  | some d =>
    obtain ⟨op', hop', rfl, -⟩ := lookup?_eq_some_iff.1 hd
    obtain rfl := Option.some.inj (hname.symm.trans hop')
    dsimp only
    rw [hmap, hmap, map_fold_invoke_eq h]

end Recoded

/-- The greatest integer of whose logarithm it is said, in both encodings. -/
theorem invoke_recoded_greatest :
    let w : Word := ⟨2 ^ 53 - 1, by decide, by decide⟩
    List.Forall₂ (Recoded .log) [.small w] [.big w.val] ∧
      (Operation.log.descriptor.invoke [.small w]).map Value.fold =
        (Operation.log.descriptor.invoke [.big w.val]).map Value.fold ∧
      (evaluate "Log" [.small w] 1).map Value.fold =
        (evaluate "Log" [.big w.val] 1).map Value.fold := by
  intro w
  have h : List.Forall₂ (Recoded .log) [.small w] [.big w.val] :=
    .cons (.widened w fun _ => by decide) .nil
  have hname : Operation.ofName? "Log" = some .log := by decide +kernel
  exact ⟨h, (invoke_recoded h).1, (invoke_recoded h).2 "Log" 1 hname⟩

end RegisterMachine
