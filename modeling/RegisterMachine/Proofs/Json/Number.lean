/-
# Numbers that are written

An integer is read back from its digits (`Json.toInt?_ofInt`). A double is
written as its shortest decimal, and what the text stands for is that decimal
again or, for a whole number that is written positionally, the number with one
more zero behind the point (`Magnitude.written`).

Key definitions: `Decimal.written`, `Magnitude.written`.
Key theorems: `Json.toInt?_ofInt`, `Decimal.spells_positional`,
`Decimal.spells_scientific`, `spells_magnitudeText`.
-/
import RegisterMachine.Proofs.Json.Numeral

namespace RegisterMachine
/-! ### Integers -/

theorem spells_digitsOf (n : Nat) : Spells (digitsOf n) ⟨digitsOf n, [], 0⟩ [] where
  text_eq := by simp
  whole_ne_nil := digitsOf_ne_nil n
  whole_digits _ := isDigit_of_mem_digitsOf
  no_zero := head?_digitsOf_ne_zero_or n
  fraction_digits := by simp
  exponent := rfl
  tail_chars := by simp

theorem signedDigits_eq (n : Int) :
    signedDigits n = (if decide (n < 0) then ['-'] else []) ++ digitsOf n.natAbs := by
  by_cases h : n < 0 <;> simp [signedDigits, h]

namespace Json

theorem wellFormed_ofInt (n : Int) : (ofInt n).WellFormed := by
  rw [ofInt, WellFormed, signedDigits_eq]
  exact ⟨(spells_digitsOf _).isNumber_eq _, (spells_digitsOf _).chars _⟩

/-- **An integer is read back from its digits.** -/
theorem toInt?_ofInt (n : Int) : (ofInt n).toInt? = some n := by
  have hall : (digitsOf n.natAbs).all Char.isDigit = true :=
    List.all_eq_true.2 fun _ => isDigit_of_mem_digitsOf
  have hzero : ¬ (decide (n < 0) = true ∧ n.natAbs = 0) := by
    rw [decide_eq_true_iff]
    omega
  simp only [ofInt, toInt?, signedDigits_eq, (spells_digitsOf _).splitSign_eq, ofDigits_digitsOf]
  rw [if_pos ⟨hall, hzero⟩, signed_natAbs]

end Json

/-! ### Decimals -/

namespace Decimal

/-- The decimal that the text of a decimal stands for: the same number, with a
zero behind the point if it is a whole number that is written positionally. -/
def written (d : Decimal) : Decimal :=
  if 0 ≤ d.exponent ∧ d.pointPlace ≤ 16 then
    ⟨d.coefficient * 10 ^ (d.exponent.toNat + 1), -1⟩
  else d

theorem ofDigits_digits (d : Decimal) : ofDigits d.digits = d.coefficient :=
  ofDigits_digitsOf d.coefficient

theorem isDigit_of_mem_digits {d : Decimal} {c : Char} (h : c ∈ d.digits) : c.isDigit = true :=
  isDigit_of_mem_digitsOf h

theorem isDigit_zeros (k : Nat) : ∀ c ∈ List.replicate k '0', c.isDigit = true := by
  intro c hc
  rw [(List.mem_replicate.1 hc).2]
  decide

theorem ofDigits_append_zeros (cs : List Char) (k : Nat) :
    ofDigits (cs ++ List.replicate k '0') = ofDigits cs * 10 ^ k := by
  rw [ofDigits_append, Nat.ofDigitChars_replicate_zero, Nat.mul_comm]

theorem ofDigits_zeros_append (k : Nat) (cs : List Char) :
    ofDigits (List.replicate k '0' ++ cs) = ofDigits cs := by
  have hzeros : ofDigits (List.replicate k '0') = 0 := by
    rw [ofDigits, Nat.ofDigitChars_replicate_zero, Nat.mul_zero]
  rw [ofDigits_append, hzeros, ofDigits]

section Positional

variable {d : Decimal}

theorem digits_length_pos (d : Decimal) : 0 < d.digits.length := length_digitsOf_pos _

/-- A whole number is written with its zeros, and one more behind the point. -/
theorem spells_whole (h : d.coefficient ≠ 0) (hexp : 0 ≤ d.exponent) (hplace : d.pointPlace ≤ 16) :
    ∃ n, Spells (d.positional ['.', '0']) n [] ∧ n.value = d.written := by
  have hpos := d.digits_length_pos
  rw [positional, if_pos hexp]
  refine ⟨⟨d.digits ++ List.replicate d.exponent.toNat '0', ['0'], 0⟩, ⟨by simp, ?_, ?_, ?_,
    by simp, rfl, by simp⟩, ?_⟩
  · simp [List.ne_nil_of_length_pos hpos]
  · intro c hc
    rcases List.mem_append.1 hc with hc | hc
    · exact isDigit_of_mem_digits hc
    · exact isDigit_zeros _ c hc
  · have hhead : d.digits.head? ≠ some '0' := head?_digitsOf_ne_zero h
    left
    cases hd : d.digits with
    | nil => simp [hd] at hpos
    | cons c cs => rw [hd] at hhead; exact hhead
  · have hzeros : ['0'] = List.replicate 1 '0' := rfl
    rw [written, if_pos ⟨hexp, hplace⟩, Numeral.value, hzeros, ofDigits_append_zeros,
      ofDigits_append_zeros, ofDigits_digits, Nat.mul_assoc, ← Nat.pow_add]
    rfl

theorem written_of_neg (hexp : ¬ 0 ≤ d.exponent) : d.written = d := if_neg fun h => hexp h.1

/-- A number above one with a fraction has digits on both sides of the point. -/
theorem spells_pointed (h : d.coefficient ≠ 0) (hexp : ¬ 0 ≤ d.exponent)
    (hin : 0 < d.pointPlace) :
    ∃ n, Spells (d.positional ['.', '0']) n [] ∧ n.value = d.written := by
  have hpos := d.digits_length_pos
  have hpoint : d.pointPlace = d.digits.length + d.exponent := rfl
  have hne : d.digits.drop d.pointPlace.toNat ≠ [] := by
    rw [Ne, List.drop_eq_nil_iff]
    omega
  rw [positional, if_neg hexp, if_pos hin]
  refine ⟨⟨d.digits.take d.pointPlace.toNat, d.digits.drop d.pointPlace.toNat, 0⟩,
    ⟨?_, ?_, ?_, ?_, ?_, rfl, by simp⟩, ?_⟩
  · simp only [if_neg hne, List.append_nil]
  · rw [Ne, List.take_eq_nil_iff]
    simp only [List.ne_nil_of_length_pos hpos, or_false]
    omega
  · exact fun c hc => isDigit_of_mem_digits (List.mem_of_mem_take hc)
  · left
    rw [List.head?_take, if_neg (by omega)]
    exact head?_digitsOf_ne_zero h
  · exact fun c hc => isDigit_of_mem_digits (List.mem_of_mem_drop hc)
  · rw [written_of_neg hexp, Numeral.value, List.take_append_drop, ofDigits_digits,
      List.length_drop]
    refine Decimal.ext rfl ?_
    dsimp only
    omega

/-- A number below one has zeros in front of its digits. -/
theorem spells_fraction (hexp : ¬ 0 ≤ d.exponent) (hin : ¬ 0 < d.pointPlace) :
    ∃ n, Spells (d.positional ['.', '0']) n [] ∧ n.value = d.written := by
  have hpos := d.digits_length_pos
  have hpoint : d.pointPlace = d.digits.length + d.exponent := rfl
  rw [positional, if_neg hexp, if_neg hin]
  refine ⟨⟨['0'], List.replicate (-d.pointPlace).toNat '0' ++ d.digits, 0⟩,
    ⟨?_, by simp, ?_, by simp, ?_, rfl, by simp⟩, ?_⟩
  · simp [List.ne_nil_of_length_pos hpos]
  · exact isDigit_zeros 1
  · intro c hc
    rcases List.mem_append.1 hc with hc | hc
    · exact isDigit_zeros _ c hc
    · exact isDigit_of_mem_digits hc
  · have hzero : ['0'] = List.replicate 1 '0' := rfl
    rw [written_of_neg hexp, Numeral.value, hzero, ofDigits_zeros_append, ofDigits_zeros_append,
      ofDigits_digits, List.length_append, List.length_replicate]
    refine Decimal.ext rfl ?_
    dsimp only
    omega

theorem spells_of_neg (h : d.coefficient ≠ 0) (hexp : ¬ 0 ≤ d.exponent) :
    ∃ n, Spells (d.positional ['.', '0']) n [] ∧ n.value = d.written := by
  by_cases hin : 0 < d.pointPlace
  · exact spells_pointed h hexp hin
  · exact spells_fraction hexp hin

theorem spells_positional (h : d.coefficient ≠ 0) (hplace : d.pointPlace ≤ 16) :
    ∃ n, Spells (d.positional ['.', '0']) n [] ∧ n.value = d.written := by
  by_cases hexp : 0 ≤ d.exponent
  · exact spells_whole h hexp hplace
  · exact spells_of_neg h hexp

end Positional

theorem readExponent?_power (power : Int) :
    readExponent? ('e' :: (if power < 0 then '-' else '+') :: digitsOf power.natAbs) =
      some power := by
  have hall : (digitsOf power.natAbs).all Char.isDigit = true :=
    List.all_eq_true.2 fun _ => isDigit_of_mem_digitsOf
  have hdigits := digitsOf_ne_nil power.natAbs
  by_cases h : power < 0
  · simp only [readExponent?, if_pos h, splitSign, if_true, true_or, hdigits, hall, ne_eq,
      not_false_eq_true, and_self, ofDigits_digitsOf, signed, Option.some.injEq]
    omega
  · have hplus : ¬ '+' = '-' := by decide
    simp only [readExponent?, if_neg h, splitSign, if_neg hplus, if_true, true_or, hdigits, hall,
      ne_eq, not_false_eq_true, and_self, ofDigits_digitsOf, signed, Option.some.injEq,
      Bool.false_eq_true, if_false]
    omega

theorem isNumberChar_power (power : Int) :
    ∀ c ∈ 'e' :: (if power < 0 then '-' else '+') :: digitsOf power.natAbs,
      Json.isNumberChar c = true := by
  intro c hc
  rcases List.mem_cons.1 hc with rfl | hc
  · decide
  · rcases List.mem_cons.1 hc with rfl | hc
    · split <;> decide
    · simp [Json.isNumberChar, isDigit_of_mem_digitsOf hc]

/-- A decimal written scientifically is a numeral. -/
theorem spells_scientific {d : Decimal} (hplace : ¬ (-5 < d.pointPlace ∧ d.pointPlace ≤ 16)) :
    ∃ n tail, Spells d.scientific n tail ∧ n.value = d.written := by
  have hpos := d.digits_length_pos
  have hpoint : d.pointPlace = d.digits.length + d.exponent := rfl
  have hwritten : d.written = d := if_neg fun hc => hplace ⟨by omega, hc.2⟩
  have hdrop : d.digits.drop 1 = [] ↔ d.digits.length = 1 := by
    rw [List.drop_eq_nil_iff]
    omega
  refine ⟨⟨d.digits.take 1, d.digits.drop 1, d.pointPlace - 1⟩,
    'e' :: (if d.pointPlace - 1 < 0 then '-' else '+') :: digitsOf (d.pointPlace - 1).natAbs,
    ⟨?_, ?_, ?_, ?_, ?_, ?_, ?_⟩, ?_⟩
  · simp only [scientific, hdrop]
  · rw [Ne, List.take_eq_nil_iff]
    simp [List.ne_nil_of_length_pos hpos]
  · exact fun c hc => isDigit_of_mem_digits (List.mem_of_mem_take hc)
  · right
    rw [List.length_take]
    omega
  · exact fun c hc => isDigit_of_mem_digits (List.mem_of_mem_drop hc)
  · exact readExponent?_power _
  · exact isNumberChar_power _
  · rw [hwritten, Numeral.value, List.take_append_drop, ofDigits_digits, List.length_drop]
    refine Decimal.ext rfl ?_
    dsimp only
    omega

theorem coefficient_written_lt {d : Decimal} (h : d.coefficient ≤ 10 ^ 17) :
    d.written.coefficient < gatherBound := by
  unfold written
  split
  · rename_i hc
    obtain ⟨hexp, hplace⟩ := hc
    have hlen : d.digits.length + d.exponent.toNat ≤ 16 := by
      unfold pointPlace at hplace
      omega
    have hlt : d.coefficient < 10 ^ d.digits.length := lt_pow_decimalLength d.coefficient
    have hbound : 10 ^ (17 : Nat) < gatherBound := by decide
    calc d.coefficient * 10 ^ (d.exponent.toNat + 1)
        ≤ 10 ^ d.digits.length * 10 ^ (d.exponent.toNat + 1) :=
          Nat.mul_le_mul_right _ (Nat.le_of_lt hlt)
      _ = 10 ^ (d.digits.length + (d.exponent.toNat + 1)) := (Nat.pow_add ..).symm
      _ ≤ 10 ^ 17 := Nat.pow_le_pow_right (by omega) (by omega)
      _ < gatherBound := hbound
  · exact Nat.lt_of_le_of_lt h (by decide)

end Decimal

/-! ### Doubles -/

/-- The decimal that the text of a magnitude stands for. -/
def Magnitude.written (m : Magnitude) : Decimal := (m.shortest .even).written

theorem spells_whole_point (n : Nat) :
    Spells (digitsOf n ++ ['.', '0']) ⟨digitsOf n, ['0'], 0⟩ [] where
  text_eq := by simp
  whole_ne_nil := digitsOf_ne_nil n
  whole_digits _ := isDigit_of_mem_digitsOf
  no_zero := head?_digitsOf_ne_zero_or n
  fraction_digits := Decimal.isDigit_zeros 1
  exponent := rfl
  tail_chars := by simp

theorem spells_zero (m : Magnitude) (h : m.ordinal = 0) :
    ∃ n, Spells ['0', '.', '0'] n [] ∧ n.value = m.written := by
  refine ⟨_, spells_whole_point 0, ?_⟩
  rw [Magnitude.written, Magnitude.shortest, if_pos h]
  decide

/-- The text of a magnitude is a numeral of the decimal it is written as. -/
theorem spells_magnitudeText (m : Magnitude)
    (h : m.ordinal ≠ 0 → (m.shortest .even).coefficient ≠ 0) :
    ∃ n tail, Spells (Json.magnitudeText m) n tail ∧ n.value = m.written := by
  unfold Json.magnitudeText
  split
  · rename_i hzero
    obtain ⟨n, hn⟩ := spells_zero m hzero
    exact ⟨n, [], hn⟩
  · rename_i hne
    dsimp only
    split
    · rename_i hplace
      obtain ⟨n, hn⟩ := Decimal.spells_positional (h hne) hplace.2
      exact ⟨n, [], hn⟩
    · rename_i hplace
      exact Decimal.spells_scientific hplace

end RegisterMachine
