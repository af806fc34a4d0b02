/-
# What operations answer

Of every computation that succeeds it is said what kind of value it answers:
doubles, complex numbers, integers made by `Value.ofInt`, or an integer operand,
which floor, ceiling and rounding hand on as it is. There is nothing else that an
operation answers (`Operation.answers_compute`).

Key definitions: `Answers`.
Key theorems: `bind_eq_ok_iff`, `integralPart_cases`, `roundToInteger_cases`,
`Operation.answers_compute`.
-/
import RegisterMachine.Operation.Catalog

namespace RegisterMachine

section Inversion

variable {x y v : Value}

theorem bind_eq_ok_iff {α β : Type} {r : Except Cause α} {f : α → Except Cause β} {b : β} :
    (r >>= f) = .ok b ↔ ∃ a, r = .ok a ∧ f a = .ok b := by
  cases r <;> simp [bind, Except.bind]

/-! ### Doubles and complex numbers -/

theorem eq_float_of_checked {finite notANumber : Bool} {r : Binary64}
    (h : checked finite notANumber r = .ok v) : v = .float r := by
  unfold checked at h
  split at h
  · cases h
  · split at h
    · cases h
    · exact (Except.ok.inj h).symm

theorem exists_float_of_realFunction {f : Binary64 → Binary64} (h : realFunction f x = .ok v) :
    ∃ r, v = .float r := by
  obtain ⟨a, -, hv⟩ := bind_eq_ok_iff.1 h
  exact ⟨_, eq_float_of_checked hv⟩

theorem exists_float_of_directionAngle (h : directionAngle y x = .ok v) : ∃ r, v = .float r := by
  obtain ⟨b, -, h⟩ := bind_eq_ok_iff.1 h
  obtain ⟨a, -, hv⟩ := bind_eq_ok_iff.1 h
  exact ⟨_, eq_float_of_checked hv⟩

theorem exists_float_of_logarithm {f : Binary64 → Binary64} {logTwo : Binary64}
    (h : logarithm f logTwo x = .ok v) : ∃ r, v = .float r := by
  unfold logarithm at h
  split at h
  · exact ⟨_, (Except.ok.inj h).symm⟩
  · exact exists_float_of_realFunction h

theorem exists_complex_of_buildComplex (h : buildComplex x y = .ok v) : ∃ z, v = .complex z := by
  obtain ⟨z, -, h⟩ := bind_eq_ok_iff.1 h
  obtain ⟨w, -, h⟩ := bind_eq_ok_iff.1 h
  exact ⟨_, (Except.ok.inj h).symm⟩

theorem exists_of_complexFunction {f : ComplexNumber → Value} (h : complexFunction f x = .ok v) :
    ∃ z, x = .complex z ∧ v = f z := by
  cases x with
  | complex z => exact ⟨z, rfl, (Except.ok.inj h).symm⟩
  | small n => cases h
  | big n => cases h
  | float a => cases h

/-! ### Integers -/

theorem exists_ofInt_of_wholeInteger {a : Binary64} (h : wholeInteger a = .ok v) :
    ∃ n, v = .ofInt n := by
  unfold wholeInteger at h
  split at h
  · cases h
  · split at h
    · cases h
    · split at h
      · exact ⟨(Word.ofBinary64 a).val, by rw [Value.ofInt_val]; exact (Except.ok.inj h).symm⟩
      · split at h
        · exact ⟨_, (Except.ok.inj h).symm⟩
        · cases h

/-- Floor and ceiling hand an integer on, and make one of a double. -/
theorem integralPart_cases {f : Binary64 → Binary64} (h : integralPart f x = .ok v) :
    (x.isInteger = true ∧ v = x) ∨ ∃ n, v = .ofInt n := by
  cases x with
  | small n => exact .inl ⟨rfl, (Except.ok.inj h).symm⟩
  | big n => exact .inl ⟨rfl, (Except.ok.inj h).symm⟩
  | float a => exact .inr (exists_ofInt_of_wholeInteger h)
  | complex z => cases h

/-- So does rounding to an integer. -/
theorem roundToInteger_cases (h : roundToInteger x = .ok v) :
    (x.isInteger = true ∧ v = x) ∨ ∃ n, v = .ofInt n := by
  cases x with
  | small n => exact .inl ⟨rfl, (Except.ok.inj h).symm⟩
  | big n => exact .inl ⟨rfl, (Except.ok.inj h).symm⟩
  | float a => exact .inr (exists_ofInt_of_wholeInteger h)
  | complex z => cases h

theorem exists_ofInt_of_greatestCommonDivisor (h : greatestCommonDivisor x y = .ok v) :
    ∃ n, v = .ofInt n := by
  obtain ⟨a, -, h⟩ := bind_eq_ok_iff.1 h
  obtain ⟨b, -, h⟩ := bind_eq_ok_iff.1 h
  exact ⟨_, (Except.ok.inj h).symm⟩

theorem exists_ofInt_of_leastCommonMultiple (h : leastCommonMultiple x y = .ok v) :
    ∃ n, v = .ofInt n := by
  obtain ⟨a, -, h⟩ := bind_eq_ok_iff.1 h
  obtain ⟨b, -, h⟩ := bind_eq_ok_iff.1 h
  split at h
  · exact ⟨_, (Except.ok.inj h).symm⟩
  · split at h
    · cases h
    · exact ⟨_, (Except.ok.inj h).symm⟩

theorem exists_ofInt_of_factorial (h : factorial x = .ok v) : ∃ n, v = .ofInt n := by
  unfold factorial at h
  split at h
  · cases h
  · split at h
    · cases h
    · exact ⟨_, (Except.ok.inj h).symm⟩

end Inversion

/-! ### All operations -/

/-- The value is an integer in the encoding of `Value.ofInt`, an integer among
the operands, or no integer. -/
inductive Answers (operands : List Value) : Value → Prop
  | integer (n : Int) : Answers operands (.ofInt n)
  | operand {v : Value} (h : v ∈ operands) (integer : v.isInteger = true) : Answers operands v
  | float (x : Binary64) : Answers operands (.float x)
  | complex (z : ComplexNumber) : Answers operands (.complex z)

section Answers

variable {x y v : Value} {operands : List Value}

theorem answers_of_float (h : ∃ r, v = .float r) : Answers operands v := by
  obtain ⟨r, rfl⟩ := h
  exact .float r

theorem answers_of_ofInt (h : ∃ n, v = .ofInt n) : Answers operands v := by
  obtain ⟨n, rfl⟩ := h
  exact .integer n

theorem answers_of_cases (h : (x.isInteger = true ∧ v = x) ∨ ∃ n, v = .ofInt n) :
    Answers (x :: operands) v := by
  rcases h with ⟨hx, rfl⟩ | h
  · exact .operand List.mem_cons_self hx
  · exact answers_of_ofInt h

theorem answers_absolute (h : absolute x = .ok v) : Answers operands v := by
  cases x with
  | small n => exact Except.ok.inj h ▸ .integer _
  | big n => exact Except.ok.inj h ▸ .integer _
  | float a => exact Except.ok.inj h ▸ .float _
  | complex z => exact Except.ok.inj h ▸ .float _

theorem answers_roundToPlaces (h : roundToPlaces x y = .ok v) : Answers operands v := by
  unfold roundToPlaces at h
  split at h
  · cases h
  · cases x with
    | small n => exact Except.ok.inj h ▸ .integer _
    | big n => exact Except.ok.inj h ▸ .integer _
    | float a => exact Except.ok.inj h ▸ .float _
    | complex z => cases h

theorem answers_round (h : round operands = .ok v) : Answers operands v := by
  unfold round at h
  split at h
  · exact answers_of_cases (roundToInteger_cases h)
  · exact answers_roundToPlaces h
  · cases h

theorem answers_complexFunction {f : ComplexNumber → Value} (hf : ∀ z, Answers operands (f z))
    (h : complexFunction f x = .ok v) : Answers operands v := by
  obtain ⟨z, -, rfl⟩ := exists_of_complexFunction h
  exact hf z

/-- **An operation makes integers by `Value.ofInt` alone.** -/
theorem Operation.answers_compute {op : Operation} (h : op.compute operands = .ok v) :
    Answers operands v := by
  unfold Operation.compute at h
  split at h
  -- first the eight operations that are a real function of one operand
  all_goals try exact answers_of_float (exists_float_of_realFunction h)
  · exact answers_of_float (exists_float_of_directionAngle h)
  · exact answers_of_float (exists_float_of_logarithm h)
  · exact answers_of_float (exists_float_of_logarithm h)
  · exact answers_absolute h
  · exact answers_of_cases (integralPart_cases h)
  · exact answers_of_cases (integralPart_cases h)
  · exact answers_of_ofInt (exists_ofInt_of_greatestCommonDivisor h)
  · exact answers_of_ofInt (exists_ofInt_of_leastCommonMultiple h)
  · exact answers_round h
  · exact answers_of_ofInt (exists_ofInt_of_factorial h)
  · obtain ⟨z, rfl⟩ := exists_complex_of_buildComplex h
    exact .complex z
  · exact answers_complexFunction (fun z => .float _) h
  · exact answers_complexFunction (fun z => .float _) h
  · exact answers_complexFunction (fun z => .complex _) h
  · exact answers_complexFunction (fun z => .float _) h
  · exact answers_complexFunction (fun z => .float _) h
  · cases h

end Answers

end RegisterMachine
