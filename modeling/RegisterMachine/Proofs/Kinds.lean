/-
# The kind of an answer

The descriptor of an operation tells of what kind its answers are, and where it only says
that they are numbers, the operand tells (`Operation.answerKind`). Every computation that
succeeds answers a value of that kind, also on operands that the domain would refuse
(`Operation.admits_answerKind`), so an assertion of the kind is never violated.

Key definitions: `Operation.answerKind`, `Descriptor.invokeAsserting`.
Key theorems: `Operation.admits_answerKind`, `Operation.admits_result`,
`Operation.kinds_of_answers`.
-/
import RegisterMachine.Proofs.Answers
import RegisterMachine.Proofs.Classification

namespace RegisterMachine

/-- The kind of the answer to these operands. An absolute value is an integer of an
integer, and so is a number rounded to places; rounded to none it is one of every
number. -/
def Operation.answerKind : Operation → List Value → ResultKind
  | .round, [_] => .integer
  | .abs, x :: _ | .round, x :: _ => if x.isInteger then .integer else .real
  | op, _ => op.descriptor.result

/-- Invocation with the kind of the answer asserted: instead of an answer of another kind
there is the text of the assertion. -/
def Descriptor.invokeAsserting (d : Descriptor) (operands : List Value) : Except String Answer :=
  match d.invoke operands with
  | .error cause => .ok (.error cause)
  | .ok v =>
    if d.result.admits v then .ok (.ok v)
    else .error (d.operation.name ++ " produced " ++ v.typeName ++ " outside its result kind")

namespace ResultKind

section Admits

variable {x y v : Value}

theorem admits_real_iff : real.admits v = true ↔ ∃ r, v = .float r := by
  cases v <;> simp [admits]

theorem admits_after_operand_iff {c : Bool} :
    (if c then integer else real).admits v = true ↔
      if c then v.isInteger = true else ∃ r, v = .float r := by
  cases c with
  | false => exact admits_real_iff
  | true => exact Iff.rfl

theorem admits_integer_of_ofInt (h : ∃ n, v = .ofInt n) : integer.admits v = true := by
  obtain ⟨n, rfl⟩ := h
  exact Value.isInteger_ofInt n

theorem admits_integer_of_cases (h : (x.isInteger = true ∧ v = x) ∨ ∃ n, v = .ofInt n) :
    integer.admits v = true := by
  rcases h with ⟨hx, rfl⟩ | h
  · exact hx
  · exact admits_integer_of_ofInt h

theorem admits_number (h : integer.admits v = true ∨ real.admits v = true) :
    number.admits v = true := by
  cases v with
  | small n => rfl
  | big n => rfl
  | float a => rfl
  | complex z => rcases h with h | h <;> cases h

theorem admits_complex (h : ∃ z, v = .complex z) : complex.admits v = true := by
  obtain ⟨z, rfl⟩ := h
  rfl

theorem admits_complexFunction {kind : ResultKind} {f : ComplexNumber → Value}
    (hf : ∀ z, kind.admits (f z) = true) (h : complexFunction f x = .ok v) :
    kind.admits v = true := by
  obtain ⟨z, -, rfl⟩ := exists_of_complexFunction h
  exact hf z

theorem admits_absolute (h : absolute x = .ok v) :
    (if x.isInteger then integer else real).admits v = true := by
  cases x with
  | small n => exact admits_integer_of_ofInt ⟨_, (Except.ok.inj h).symm⟩
  | big n => exact admits_integer_of_ofInt ⟨_, (Except.ok.inj h).symm⟩
  | float a => exact admits_real_iff.2 ⟨_, (Except.ok.inj h).symm⟩
  | complex z => exact admits_real_iff.2 ⟨_, (Except.ok.inj h).symm⟩

theorem admits_roundToPlaces (h : roundToPlaces x y = .ok v) :
    (if x.isInteger then integer else real).admits v = true := by
  unfold roundToPlaces at h
  split at h
  · cases h
  · cases x with
    | small n => exact admits_integer_of_ofInt ⟨_, (Except.ok.inj h).symm⟩
    | big n => exact admits_integer_of_ofInt ⟨_, (Except.ok.inj h).symm⟩
    | float a => exact admits_real_iff.2 ⟨_, (Except.ok.inj h).symm⟩
    | complex z => cases h

end Admits

end ResultKind

namespace Operation

open ResultKind

/-- **Every computation answers a value of its kind.** -/
theorem admits_answerKind {op : Operation} {operands : List Value} {v : Value}
    (h : op.compute operands = .ok v) : (op.answerKind operands).admits v = true := by
  unfold compute at h
  split at h
  -- first the eight operations that are a real function of one operand
  all_goals try exact admits_real_iff.2 (exists_float_of_realFunction h)
  · exact admits_real_iff.2 (exists_float_of_directionAngle h)
  · exact admits_real_iff.2 (exists_float_of_logarithm h)
  · exact admits_real_iff.2 (exists_float_of_logarithm h)
  · exact admits_absolute h
  · exact admits_integer_of_cases (integralPart_cases h)
  · exact admits_integer_of_cases (integralPart_cases h)
  · exact admits_integer_of_ofInt (exists_ofInt_of_greatestCommonDivisor h)
  · exact admits_integer_of_ofInt (exists_ofInt_of_leastCommonMultiple h)
  · unfold RegisterMachine.round at h
    split at h
    · exact admits_integer_of_cases (roundToInteger_cases h)
    · exact admits_roundToPlaces h
    · cases h
  · exact admits_integer_of_ofInt (exists_ofInt_of_factorial h)
  · exact admits_complex (exists_complex_of_buildComplex h)
  · exact admits_complexFunction (fun _ => rfl) h
  · exact admits_complexFunction (fun _ => rfl) h
  · exact admits_complexFunction (fun _ => rfl) h
  · exact admits_complexFunction (fun _ => rfl) h
  · exact admits_complexFunction (fun _ => rfl) h
  · cases h

/-- The kind of an answer is the one in the descriptor, or refines it. -/
theorem admits_result_of_answerKind {op : Operation} {operands : List Value} {v : Value}
    (h : (op.answerKind operands).admits v = true) : op.descriptor.result.admits v = true := by
  unfold answerKind at h
  split at h
  · exact admits_number (.inl h)
  · split at h
    · exact admits_number (.inl h)
    · exact admits_number (.inr h)
  · split at h
    · exact admits_number (.inl h)
    · exact admits_number (.inr h)
  · exact h

/-- The assertion is never violated. -/
theorem invokeAsserting_eq (op : Operation) (operands : List Value) :
    op.descriptor.invokeAsserting operands = .ok (op.descriptor.invoke operands) := by
  rw [Descriptor.invokeAsserting]
  cases hinvoke : op.descriptor.invoke operands with
  | error cause => rfl
  | ok v =>
    have hcompute := (gives_iff_compute.1 (gives_iff.2 hinvoke)).2.2
    exact if_pos (admits_result_of_answerKind (admits_answerKind hcompute))

theorem exists_gives_abs (x : Value) : ∃ v, abs.Gives [x] v :=
  (exists_gives_iff List.mem_cons_self).2 fun _ h => h

theorem exists_gives_round_one_iff (x : Value) :
    (∃ v, round.Gives [x] v) ↔ x.isInteger = true ∨ ∃ y, x = .float y ∧ y.isFinite = true := by
  rw [exists_gives_iff List.mem_cons_self]
  simp only [Refuses, not_and, not_or, not_exists, forall_eq]
  cases x with
  | small n => simp [Value.isInteger, Value.isComplex]
  | big n => simp [Value.isInteger, Value.isComplex]
  | float y => simp [Value.isInteger, Value.isComplex]
  | complex z => simp [Value.isInteger, Value.isComplex]

theorem exists_gives_round_two_iff (x places : Value) :
    (∃ v, round.Gives [x, places] v) ↔ places.Integral ∧ x.isComplex = false := by
  rw [exists_gives_iff (List.mem_cons_of_mem _ List.mem_cons_self)]
  simp only [Refuses, not_and, not_or, not_not, forall_eq, Bool.not_eq_true]

/-- **No operation answers a value of another kind than its descriptor says,** so the
assertion is never violated, and numbers are of the kind of the operand. The absolute value
of an integer is an integer and that of any other value a double. Rounded with one operand,
every integer and finite double is an integer; rounded to places, an integer is an integer
and a double a double. -/
theorem kinds_of_answers :
    (∀ (op : Operation) (operands : List Value),
      op.descriptor.invokeAsserting operands = .ok (op.descriptor.invoke operands) ∧
      ∀ v, op.compute operands = .ok v → op.descriptor.result.admits v = true) ∧
    (∀ x : Value, ∃ v, abs.Gives [x] v ∧
      if x.isInteger then v.isInteger = true else ∃ r, v = .float r) ∧
    (∀ x : Value,
      ((∃ v, round.Gives [x] v) ↔
        x.isInteger = true ∨ ∃ y, x = .float y ∧ y.isFinite = true) ∧
      ∀ v, round.Gives [x] v → v.isInteger = true) ∧
    ∀ x places : Value,
      ((∃ v, round.Gives [x, places] v) ↔ places.Integral ∧ x.isComplex = false) ∧
      ∀ v, round.Gives [x, places] v →
        if x.isInteger then v.isInteger = true else ∃ y r, x = .float y ∧ v = .float r := by
  have hkind : ∀ {op : Operation} {operands : List Value} {v : Value},
      op.Gives operands v → (op.answerKind operands).admits v = true :=
    fun h => admits_answerKind (gives_iff_compute.1 h).2.2
  refine ⟨fun op operands => ⟨invokeAsserting_eq op operands, fun v hv =>
    admits_result_of_answerKind (admits_answerKind hv)⟩, fun x => ?_, fun x =>
    ⟨exists_gives_round_one_iff x, fun v => hkind⟩, fun x places =>
    ⟨exists_gives_round_two_iff x places, fun v hv => ?_⟩⟩
  · obtain ⟨v, hv⟩ := exists_gives_abs x
    exact ⟨v, hv, admits_after_operand_iff.1 (hkind hv)⟩
  · have hreal := ((exists_gives_round_two_iff x places).1 ⟨v, hv⟩).2
    have hadmits := admits_after_operand_iff.1 (hkind hv)
    cases x with
    | small n => exact hadmits
    | big n => exact hadmits
    | float y =>
      obtain ⟨r, hr⟩ := hadmits
      exact ⟨y, r, rfl, hr⟩
    | complex z => cases hreal

end Operation

end RegisterMachine
