/-
# Equality of values

Doubles are equal if they have one place in the increasing order of all doubles
(`Binary64.numEq_iff_rank?`), so their equality is symmetric and transitive, and so is
that of integers across the two encodings. Between integers and doubles it is
symmetric only. A word is compared with a double by its nearest double, which two
words may share, and an unbounded integer is equal to no double, not even where
the same integer as a word is. These are all the pairs of values that are not
equal although a third value is equal to both (`Value.Broken`).

Key definitions: `Value.Broken`.
Key theorems: `Binary64.numEq_iff_rank?`, `Value.numEq_comm`,
`Value.numEq_comm_and_trans_iff`.
-/
import RegisterMachine.Proofs.Coercion

namespace RegisterMachine

/-! ### Doubles -/

namespace Binary64

variable {x y z : Binary64}

theorem signed_eq_signed_iff {a b : Bool} {i j : ℕ} :
    signed a i = signed b j ↔ i = j ∧ (a = b ∨ i = 0) := by
  cases a <;> cases b <;>
    simp only [signed_false, signed_true, reduceCtorEq, false_or, true_or, and_true] <;> omega

theorem ordinal_eq_iff {m n : Magnitude} : m.ordinal = n.ordinal ↔ m = n :=
  ⟨fun h => Magnitude.quanta_injective (congrArg ordinalQuanta h), congrArg Magnitude.ordinal⟩

/-- **Doubles are equal if they have one place among all doubles;** NaN has none. -/
theorem numEq_iff_rank? : x.numEq y = true ↔ ∃ k, y.rank? = some k ∧ x.rank? = some k := by
  match x, y with
  | .nan, _ | .infinite _, .nan | .finite _ _, .nan => simp [numEq, rank?]
  | .infinite a, .infinite b => simp [numEq, rank?, signed_eq_signed_iff]
  | .infinite a, .finite b m | .finite b m, .infinite a =>
    have hm := m.ordinal_lt
    simp [numEq, rank?, signed_eq_signed_iff, hm.ne, hm.ne']
  | .finite a m, .finite b n => simp [numEq, rank?, signed_eq_signed_iff, ordinal_eq_iff]

theorem numEq_comm (x y : Binary64) : x.numEq y = y.numEq x := by
  rw [Bool.eq_iff_iff, numEq_iff_rank?, numEq_iff_rank?]
  exact exists_congr fun _ => and_comm

theorem numEq_trans (hxy : x.numEq y = true) (hyz : y.numEq z = true) : x.numEq z = true := by
  rw [numEq_iff_rank?] at *
  obtain ⟨k, hy, hx⟩ := hxy
  obtain ⟨l, hz, hy'⟩ := hyz
  obtain rfl := Option.some.inj (hy.symm.trans hy')
  exact ⟨k, hz, hx⟩

theorem value_eq_of_numEq (hx : x.isFinite = true) (hy : y.isFinite = true)
    (h : x.numEq y = true) : x.value = y.value := by
  obtain ⟨k, hky, hkx⟩ := numEq_iff_rank?.1 h
  have hle : x.le y = true := by simp [le, hkx, hky]
  have hge : y.le x = true := by simp [le, hkx, hky]
  exact le_antisymm ((le_iff_value_le hx hy).1 hle) ((le_iff_value_le hy hx).1 hge)

end Binary64

theorem ComplexNumber.numEq_comm (z w : ComplexNumber) : z.numEq w = w.numEq z := by
  rw [numEq, numEq, z.re.numEq_comm, z.im.numEq_comm]

theorem ComplexNumber.numEq_trans {u v w : ComplexNumber} (huv : u.numEq v = true)
    (hvw : v.numEq w = true) : u.numEq w = true := by
  rw [numEq, Bool.and_eq_true] at *
  exact ⟨Binary64.numEq_trans huv.1 hvw.1, Binary64.numEq_trans huv.2 hvw.2⟩

/-! ### Values -/

namespace Value

/-- Two values that are not equal although a third one is equal to both: an unbounded
integer and a double on the two sides of the integer's word, or two words on the
two sides of the double that they are rounded to. -/
inductive Broken : Value → Value → Prop
  | bigFloat {w : Word} {x : Binary64} (rounded : (Binary64.ofInt w.val).numEq x = true) :
      Broken (.big w.val) (.float x)
  | floatBig {w : Word} {x : Binary64} (rounded : (Binary64.ofInt w.val).numEq x = true) :
      Broken (.float x) (.big w.val)
  | words {v w : Word} (ne : v ≠ w)
      (rounded : (Binary64.ofInt v.val).numEq (Binary64.ofInt w.val) = true) :
      Broken (.small v) (.small w)

section Equal

variable {a c : Value}

/-- What is equal to a word: the same integer, or a double that the word is rounded to. -/
theorem numEq_small_iff {w : Word} :
    a.numEq (.small w) = true ↔
      a = .small w ∨ a = .big w.val ∨
        ∃ x, a = .float x ∧ (Binary64.ofInt w.val).numEq x = true := by
  cases a <;> simp [numEq]

theorem numEq_big_iff {n : ℤ} :
    a.numEq (.big n) = true ↔ a = .big n ∨ ∃ w : Word, a = .small w ∧ w.val = n := by
  cases a <;> simp [numEq]

/-- What is equal to a double: a word that is rounded to it, or an equal double. -/
theorem numEq_float_iff {x : Binary64} :
    a.numEq (.float x) = true ↔
      (∃ w : Word, a = .small w ∧ (Binary64.ofInt w.val).numEq x = true) ∨
        ∃ y, a = .float y ∧ y.numEq x = true := by
  cases a <;> simp [numEq]

theorem numEq_complex_iff {z : ComplexNumber} :
    a.numEq (.complex z) = true ↔ ∃ u, a = .complex u ∧ u.numEq z = true := by
  cases a <;> simp [numEq]

theorem numEq_comm (a b : Value) : a.numEq b = b.numEq a := by
  match a, b with
  | .small v, .small w => exact Bool.beq_comm
  | .big n, .big m => exact Bool.beq_comm
  | .small w, .big n | .big n, .small w => exact Bool.beq_comm
  | .float x, .float y => exact x.numEq_comm y
  | .complex z, .complex u => exact z.numEq_comm u
  | .small _, .float _ | .float _, .small _ => rfl
  | .big _, .float _ | .float _, .big _ => rfl
  | .complex _, .small _ | .complex _, .big _ | .complex _, .float _ => rfl
  | .small _, .complex _ | .big _, .complex _ | .float _, .complex _ => rfl

/-- Two values that are equal to a third one are equal, or they are a broken pair. -/
theorem numEq_or_broken {b : Value} (hab : a.numEq b = true) (hcb : c.numEq b = true) :
    a.numEq c = true ∨ Broken a c := by
  cases b with
  | small w =>
    rw [numEq_small_iff] at hab hcb
    obtain rfl | rfl | ⟨x, rfl, hx⟩ := hab
    · rw [numEq_comm]
      exact .inl (numEq_small_iff.2 hcb)
    · obtain rfl | rfl | ⟨y, rfl, hy⟩ := hcb
      · exact .inl (numEq_small_iff.2 (.inr (.inl rfl)))
      · exact .inl (numEq_big_iff.2 (.inl rfl))
      · exact .inr (.bigFloat hy)
    · obtain rfl | rfl | ⟨y, rfl, hy⟩ := hcb
      · exact .inl hx
      · exact .inr (.floatBig hx)
      · rw [Binary64.numEq_comm] at hx
        exact .inl (Binary64.numEq_trans hx hy)
  | big n =>
    rw [numEq_big_iff] at hab hcb
    left
    obtain rfl | ⟨v, rfl, rfl⟩ := hab
    · rw [numEq_comm]
      exact numEq_big_iff.2 hcb
    · obtain rfl | ⟨w, rfl, hw⟩ := hcb
      · exact numEq_big_iff.2 (.inr ⟨v, rfl, rfl⟩)
      · have hsame : small v = small w := by rw [← ofInt_val, ← hw, ofInt_val]
        exact numEq_small_iff.2 (.inl hsame)
  | float x =>
    rw [numEq_float_iff] at hab hcb
    obtain ⟨v, rfl, hv⟩ | ⟨y, rfl, hy⟩ := hab
    · obtain ⟨w, rfl, hw⟩ | ⟨z, rfl, hz⟩ := hcb
      · rw [Binary64.numEq_comm] at hw
        by_cases hsame : v = w
        · exact .inl (numEq_small_iff.2 (.inl (congrArg small hsame)))
        · exact .inr (.words hsame (Binary64.numEq_trans hv hw))
      · rw [Binary64.numEq_comm] at hz
        exact .inl (numEq_float_iff.2 (.inl ⟨v, rfl, Binary64.numEq_trans hv hz⟩))
    · left
      rw [numEq_comm, numEq_float_iff]
      rw [Binary64.numEq_comm] at hy
      obtain ⟨w, rfl, hw⟩ | ⟨z, rfl, hz⟩ := hcb
      · exact .inl ⟨w, rfl, Binary64.numEq_trans hw hy⟩
      · exact .inr ⟨z, rfl, Binary64.numEq_trans hz hy⟩
  | complex z =>
    obtain ⟨u, rfl, hu⟩ := numEq_complex_iff.1 hab
    obtain ⟨v, rfl, hv⟩ := numEq_complex_iff.1 hcb
    rw [ComplexNumber.numEq_comm] at hv
    exact .inl (ComplexNumber.numEq_trans hu hv)

theorem Broken.exists_between (h : Broken a c) :
    a.numEq c = false ∧ ∃ b : Value, a.numEq b = true ∧ b.numEq c = true := by
  cases h with
  | @bigFloat w x rounded => exact ⟨rfl, .small w, numEq_small_iff.2 (.inr (.inl rfl)), rounded⟩
  | @floatBig w x rounded => exact ⟨rfl, .small w, rounded, numEq_big_iff.2 (.inr ⟨w, rfl, rfl⟩)⟩
  | @words v w ne rounded =>
    have hself : (Binary64.ofInt w.val).numEq (.ofInt w.val) = true :=
      Binary64.numEq_self (Binary64.isNaN_nearest _ _ _)
    refine ⟨beq_false_of_ne ne, .float (.ofInt w.val), ?_, ?_⟩
    · exact numEq_float_iff.2 (.inl ⟨v, rfl, rounded⟩)
    · exact numEq_small_iff.2 (.inr (.inr ⟨_, rfl, hself⟩))

theorem lt_of_broken_words {v w : Word} (h : Broken (.small v) (.small w)) :
    2 ^ 53 < v.val.natAbs ∨ 2 ^ 53 < w.val.natAbs := by
  cases h with
  | words ne rounded =>
    by_contra hsmall
    obtain ⟨hv, hw⟩ := not_or.1 hsmall
    obtain ⟨hvfinite, hvvalue⟩ := Binary64.value_ofInt (Nat.not_lt.1 hv)
    obtain ⟨hwfinite, hwvalue⟩ := Binary64.value_ofInt (Nat.not_lt.1 hw)
    have hvalues := Binary64.value_eq_of_numEq hvfinite hwfinite rounded
    rw [hvvalue, hwvalue, Int.cast_inj] at hvalues
    apply ne
    exact small.inj (by rw [← ofInt_val, hvalues, ofInt_val])

/-- **Equality of values is symmetric, and it is transitive except on the broken pairs.**
They are an unbounded integer and a double that its word is rounded to, in either
order, and two words that are rounded to one double, of which one is past `2 ^ 53`. -/
theorem numEq_comm_and_trans_iff (a c : Value) :
    a.numEq c = c.numEq a ∧
    ((∀ b : Value, a.numEq b = true → b.numEq c = true → a.numEq c = true) ↔ ¬ Broken a c) ∧
    ∀ v w : Word, a = .small v → c = .small w → Broken a c →
      2 ^ 53 < v.val.natAbs ∨ 2 ^ 53 < w.val.natAbs := by
  refine ⟨numEq_comm a c, ⟨?_, ?_⟩, ?_⟩
  · intro htrans hbroken
    obtain ⟨hne, b, hab, hbc⟩ := hbroken.exists_between
    rw [htrans b hab hbc] at hne
    cases hne
  · intro hwhole b hab hbc
    rw [numEq_comm] at hbc
    exact (numEq_or_broken hab hbc).resolve_right hwhole
  · rintro v w rfl rfl hbroken
    exact lt_of_broken_words hbroken

/-- The first two words that are rounded to one double. -/
theorem numEq_comm_and_trans_iff_past_exact :
    let v : Word := ⟨2 ^ 53, by decide, by decide⟩
    let w : Word := ⟨2 ^ 53 + 1, by decide, by decide⟩
    (2 ^ 53 < v.val.natAbs ∨ 2 ^ 53 < w.val.natAbs) ∧
      (¬ ∀ b : Value, (small v).numEq b = true → b.numEq (.small w) = true →
        (small v).numEq (.small w) = true) := by
  intro v w
  have hbroken : Broken (.small v) (.small w) := .words (by decide) (by decide +kernel)
  obtain ⟨-, htrans, hpast⟩ := numEq_comm_and_trans_iff (.small v) (.small w)
  exact ⟨hpast v w rfl rfl hbroken, fun h => htrans.1 h hbroken⟩

/-- Equality is not transitive: from the unbounded integer 9 over the word 9 to the double
9, and from a word past `2 ^ 53` over the double that it is rounded to. -/
theorem numEq_not_transitive :
    let nine : Word := ⟨9, by decide, by decide⟩
    let past : Word := ⟨2 ^ 53 + 1, by decide, by decide⟩
    let exact : Word := ⟨2 ^ 53, by decide, by decide⟩
    ((big 9).numEq (small nine) = true ∧ (small nine).numEq (float (.ofInt 9)) = true ∧
      (big 9).numEq (float (.ofInt 9)) = false) ∧
    ((small past).numEq (float (.ofInt (2 ^ 53))) = true ∧
      (float (.ofInt (2 ^ 53))).numEq (small exact) = true ∧
      (small past).numEq (small exact) = false) := by
  decide +kernel

end Equal

end Value

end RegisterMachine
