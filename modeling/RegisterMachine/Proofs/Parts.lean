/-
# The parts of a complex number

A complex number is built from two values as `a + b * i`. Of two real values that is a
difference with zero in the real part, which changes nothing (`sub_zero`), and a sum with
zero in the imaginary part, which changes negative zero to positive zero and nothing else
(`zero_add`). So the parts come back except for that sign (`parts_of_complex`), and the
phase is the angle of the two values unless it is lost: then it is the opposite angle.

Key definitions: `Binary64.negativeZero`.
Key theorems: `Binary64.sub_zero`, `Binary64.zero_add`, `Binary64.atan2_negativeZero`,
`parts_of_complex`.
-/
import RegisterMachine.Proofs.Answers
import RegisterMachine.Proofs.Encoding

namespace RegisterMachine

namespace Binary64

/-- Negative zero. -/
def negativeZero : Binary64 := zero.neg

theorem add_comm (x y : Binary64) : x.add y = y.add x := by
  cases x with
  | nan => cases y <;> rfl
  | infinite s =>
    cases y with
    | nan => rfl
    | infinite t => cases s <;> cases t <;> rfl
    | finite t n => rfl
  | finite s m =>
    cases y with
    | nan => rfl
    | infinite t => rfl
    | finite t n =>
      rw [add, add, Int.add_comm, Bool.and_comm]

/-- Zero taken off changes nothing: negative zero stays negative. -/
theorem sub_zero (x : Binary64) : x.sub zero = x := by
  cases x with
  | nan => rfl
  | infinite s => rfl
  | finite s m => rw [sub, zero, neg, add_signed_zero, Bool.not_false, Bool.and_true, ite_self]

/-- Added to zero, negative zero becomes positive, and nothing else changes. -/
theorem zero_add (x : Binary64) : zero.add x = if x = negativeZero then zero else x := by
  rw [add_comm]
  cases x with
  | nan => rfl
  | infinite s => rfl
  | finite s m =>
    rw [zero, add_signed_zero, Bool.and_false]
    by_cases hm : m = .zero
    · cases s <;> simp [hm, negativeZero, zero, neg]
    · simp [hm, negativeZero, zero, neg]

theorem neg_eq_self_iff (x : Binary64) : x.neg = x ↔ x.isNaN = true := by
  cases x <;> simp [neg, isNaN]

/-- A direction along the axis has opposite angles from its two sides. -/
theorem atan2_negativeZero (x : Binary64) : negativeZero.atan2 x = (zero.atan2 x).neg := by
  cases x with
  | nan => rfl
  | infinite t => rfl
  | finite t m =>
    have hside : ∀ s, (finite s .zero).atan2 (finite t m) =
        withSign s (if t then pi else zero) := by
      intro s
      rw [atan2, if_pos (by rfl)]
    rw [negativeZero, zero, neg, hside, hside]
    rfl

theorem isNaN_atan2_zero (x : Binary64) : (zero.atan2 x).isNaN = x.isNaN := by
  cases hx : x.isNaN with
  | false => exact isNaN_eq_false (isFinite_atan2 rfl hx)
  | true =>
    cases x with
    | nan => rfl
    | infinite t => cases hx
    | finite t m => cases hx

end Binary64

/-! ### Construction and parts -/

section Parts

variable {a b : Value} {x y : Binary64}

theorem Value.toComplex_of_toBinary64 {v : Value} (h : v.toBinary64 = .ok x) :
    v.toComplex = .ok ⟨x, .zero⟩ := by
  unfold toComplex
  split
  · cases h
  · rw [h]
    rfl

theorem buildComplex_of_toBinary64 (ha : a.toBinary64 = .ok x) (hb : b.toBinary64 = .ok y) :
    buildComplex a b =
      .ok (.complex ⟨x, if y = Binary64.negativeZero then .zero else y⟩) := by
  rw [buildComplex, Value.toComplex_of_toBinary64 ha, Value.toComplex_of_toBinary64 hb]
  show Except.ok (Value.complex ⟨x.sub .zero, Binary64.zero.add y⟩) = _
  rw [Binary64.sub_zero, Binary64.zero_add]

theorem not_notReal_of_toBinary64 (ha : a.toBinary64 = .ok x) : ¬ a.NotReal := by
  intro h
  obtain ⟨f, hf⟩ := a.toBinary64_eq_error_iff.2 h
  rw [ha] at hf
  cases hf

theorem gives_atan2 (ha : a.toBinary64 = .ok x) (hb : b.toBinary64 = .ok y) :
    Operation.atan2.Gives [b, a] (.float (y.atan2 x)) := by
  have hcount : [b, a].length ∈ Operation.atan2.descriptor.arities := List.mem_cons_self
  obtain ⟨v, hv⟩ := (Operation.exists_gives_iff hcount).2 fun kind hrefuses => by
    obtain ⟨-, h | h⟩ := hrefuses
    · exact not_notReal_of_toBinary64 hb h
    · exact not_notReal_of_toBinary64 ha h
  obtain ⟨y', hy', h⟩ := bind_eq_ok_iff.1 (Operation.gives_iff_compute.1 hv).2.2
  obtain ⟨x', hx', hchecked⟩ := bind_eq_ok_iff.1 h
  rw [coerced_eq_ok_iff, hb] at hy'
  rw [coerced_eq_ok_iff, ha] at hx'
  rw [eq_float_of_checked hchecked, ← Except.ok.inj hy', ← Except.ok.inj hx'] at hv
  exact hv

/-- What is asked of complex numbers only is given of every one. -/
theorem gives_of_complexOnly {op : Operation} {z : ComplexNumber} {v : Value}
    (hdomain : op.descriptor.domain = .complexOnly) (hv : op.compute [.complex z] = .ok v) :
    op.Gives [.complex z] v := by
  have hcount : 1 ∈ op.descriptor.arities := by
    cases op <;> simp [Operation.descriptor] at hdomain ⊢
  rw [Operation.gives_iff_compute, hdomain]
  exact ⟨hcount, rfl, hv⟩

/-- **The parts of a complex number are the values it was built from,** but for negative
zero as the second one: the imaginary part is then positive zero. The phase is the angle
of the two values except in that case, in which it is the opposite angle. -/
theorem parts_of_complex (ha : a.toBinary64 = .ok x) (hb : b.toBinary64 = .ok y) :
    ∃ (z : ComplexNumber) (i : Binary64),
      Operation.complex.Gives [a, b] (.complex z) ∧
      Operation.realPart.Gives [.complex z] (.float x) ∧
      Operation.imagPart.Gives [.complex z] (.float i) ∧
      (i = y ↔ y ≠ Binary64.negativeZero) ∧ (y = Binary64.negativeZero → i = .zero) ∧
      Operation.phase.Gives [.complex z] (.float (i.atan2 x)) ∧
      Operation.atan2.Gives [b, a] (.float (y.atan2 x)) ∧
      (i.atan2 x = y.atan2 x ↔ y ≠ Binary64.negativeZero ∨ x.isNaN = true) ∧
      (y = Binary64.negativeZero → i.atan2 x = (y.atan2 x).neg) := by
  have hcomplex : Operation.complex.Gives [a, b]
      (.complex ⟨x, if y = Binary64.negativeZero then .zero else y⟩) :=
    Operation.gives_iff_compute.2
      ⟨List.mem_cons_self, rfl, buildComplex_of_toBinary64 ha hb⟩
  refine ⟨_, if y = Binary64.negativeZero then .zero else y, hcomplex,
    gives_of_complexOnly rfl rfl, gives_of_complexOnly rfl rfl, ?_, fun h => if_pos h,
    gives_of_complexOnly rfl rfl, gives_atan2 ha hb, ?_, fun hy => ?_⟩
  · by_cases hy : y = Binary64.negativeZero
    · rw [if_pos hy, hy]
      decide
    · rw [if_neg hy]
      exact iff_of_true rfl hy
  · by_cases hy : y = Binary64.negativeZero
    · rw [if_pos hy, hy, Binary64.atan2_negativeZero, eq_comm, Binary64.neg_eq_self_iff,
        Binary64.isNaN_atan2_zero]
      simp
    · rw [if_neg hy]
      exact iff_of_true rfl (.inl hy)
  · rw [if_pos hy, hy, Binary64.atan2_negativeZero, Binary64.neg_neg]

/-- Of minus one, as an unbounded integer, and minus two both parts come back. -/
theorem parts_of_complex_minus_one :
    ∃ z : ComplexNumber,
      evaluate "complex" [.big (-1), .float (.ofInt (-2))] 1 = .ok (.complex z) ∧
      evaluate "realpart" [.complex z] 1 = .ok (.float (.ofInt (-1))) ∧
      evaluate "imagpart" [.complex z] 1 = .ok (.float (.ofInt (-2))) := by
  obtain ⟨z, i, hcomplex, hreal, himaginary, hsame, -⟩ :=
    @parts_of_complex (.big (-1)) (.float (.ofInt (-2))) (.ofInt (-1)) (.ofInt (-2))
      (by decide +kernel) rfl
  rw [hsame.2 (by decide +kernel)] at himaginary
  exact ⟨z, hcomplex.2 _ 1 ⟨by decide +kernel, by decide⟩,
    hreal.2 _ 1 ⟨by decide +kernel, List.mem_cons_self⟩,
    himaginary.2 _ 1 ⟨by decide +kernel, List.mem_cons_self⟩⟩

/-- Of minus one and negative zero the imaginary part comes back as positive zero, and the
phase is half a turn to the other side. -/
theorem parts_of_complex_negative_zero_ne :
    Binary64.zero ≠ Binary64.negativeZero ∧
    evaluate "COMPLEX" [.float (.ofInt (-1)), .float Binary64.negativeZero] 1 =
      .ok (.complex ⟨.ofInt (-1), .zero⟩) ∧
    evaluate "IMAGPART" [.complex ⟨.ofInt (-1), .zero⟩] 1 = .ok (.float .zero) ∧
    evaluate "PHASE" [.complex ⟨.ofInt (-1), .zero⟩] 1 = .ok (.float .pi) ∧
    evaluate "ATAN2" [.float Binary64.negativeZero, .float (.ofInt (-1))] 1 =
      .ok (.float Binary64.pi.neg) ∧
    Binary64.pi ≠ Binary64.pi.neg := by
  decide +kernel

end Parts

end RegisterMachine
