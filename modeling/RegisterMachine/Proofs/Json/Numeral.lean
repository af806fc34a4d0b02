/-
# Numerals that are spelled out

A text that spells a numeral (`Spells`) is a JSON number, with a minus sign or
without, and is read as the numeral. Digits that are the first of a longer
number do not overflow where the whole number does not, so a numeral whose
digits fit a word is gathered as its exact value (`Numeral.gathered_of_lt`).

Key definitions: `Spells`.
Key theorems: `head?_digitsOf_ne_zero`, `Numeral.gathered_of_lt`,
`Spells.read?_eq`, `Spells.isNumber_eq`.
-/
import RegisterMachine.Proofs.Json.Reader

namespace RegisterMachine

/-! ### Digits -/

theorem isDigit_of_mem_digitsOf {n : Nat} {c : Char} (h : c ∈ digitsOf n) : c.isDigit = true :=
  Nat.isDigit_of_mem_toDigits (by omega) (by omega) h

theorem digitsOf_ne_nil (n : Nat) : digitsOf n ≠ [] := Nat.toDigits_ne_nil

theorem length_digitsOf_pos (n : Nat) : 0 < (digitsOf n).length := Nat.length_toDigits_pos

theorem head?_digitsOf_ne_zero {n : Nat} (h : n ≠ 0) : (digitsOf n).head? ≠ some '0' := by
  have hdigit : ∀ d < 10, d ≠ 0 → some (Nat.digitChar d) ≠ some '0' := by decide
  induction n using Nat.strongRecOn with
  | ind n ih =>
    unfold digitsOf at *
    rcases Nat.lt_or_ge n 10 with hlt | hge
    · rw [Nat.toDigits_of_lt_base hlt, List.head?_cons]
      exact hdigit n hlt h
    · have hquot := ih (n / 10) (by omega) (by omega)
      have hne : Nat.toDigits 10 (n / 10) ≠ [] := Nat.toDigits_ne_nil
      rw [Nat.toDigits_of_base_le (by omega) hge]
      cases hcs : Nat.toDigits 10 (n / 10) with
      | nil => exact absurd hcs hne
      | cons c cs =>
        rw [hcs] at hquot
        exact hquot

theorem head?_digitsOf_ne_zero_or (n : Nat) :
    (digitsOf n).head? ≠ some '0' ∨ (digitsOf n).length = 1 := by
  by_cases h : n = 0
  · right
    rw [h]
    rfl
  · exact .inl (head?_digitsOf_ne_zero h)

/-! ### Gathering -/

theorem ofDigits_append (cs ds : List Char) :
    ofDigits (cs ++ ds) = Nat.ofDigitChars 10 ds (ofDigits cs) := by
  rw [ofDigits, Nat.ofDigitChars_append, ofDigits]

theorem le_ofDigitChars (word : Nat) (ds : List Char) : word ≤ Nat.ofDigitChars 10 ds word := by
  induction ds generalizing word with
  | nil => simp
  | cons d ds ih =>
    rw [Nat.ofDigitChars_cons]
    exact Nat.le_trans (by omega) (ih _)

/-- Digits whose number fits the word are all gathered. -/
theorem gather_of_lt {word : Nat} {ds : List Char}
    (h : Nat.ofDigitChars 10 ds word < gatherBound) :
    gather word ds = (Nat.ofDigitChars 10 ds word, []) := by
  induction ds generalizing word with
  | nil => simp [gather]
  | cons d ds ih =>
    rw [Nat.ofDigitChars_cons] at h
    have hnext := Nat.lt_of_le_of_lt (le_ofDigitChars _ ds) h
    rw [gather, if_pos hnext, ih h, Nat.ofDigitChars_cons]

namespace Numeral

/-- A numeral whose digits fit a word is gathered as its exact value. -/
theorem gathered_of_lt {n : Numeral} (h : ofDigits (n.whole ++ n.fraction) < gatherBound) :
    n.gathered = n.value := by
  have happend := ofDigits_append n.whole n.fraction
  rw [happend] at h
  have hwhole : ofDigits n.whole < gatherBound := Nat.lt_of_le_of_lt (le_ofDigitChars _ _) h
  have hgather : gather 0 n.whole = (ofDigits n.whole, []) := gather_of_lt hwhole
  rw [gathered, hgather]
  dsimp only
  rw [gather_of_lt h]
  simp [value, happend]

end Numeral


/-! ### Numerals that are spelled out -/

/-- The text is the numeral: digits without needless zeros in front, a point only
with digits behind it, and the power of ten. -/
structure Spells (text : List Char) (n : Numeral) (tail : List Char) : Prop where
  text_eq : text = n.whole ++ (if n.fraction = [] then [] else '.' :: n.fraction) ++ tail
  whole_ne_nil : n.whole ≠ []
  whole_digits : ∀ c ∈ n.whole, c.isDigit = true
  no_zero : n.whole.head? ≠ some '0' ∨ n.whole.length = 1
  fraction_digits : ∀ c ∈ n.fraction, c.isDigit = true
  exponent : readExponent? tail = some n.exponent
  tail_chars : ∀ c ∈ tail, Json.isNumberChar c = true

namespace Spells

variable {text : List Char} {n : Numeral} {tail : List Char}

/-- The power of ten is not written, or it starts with its letter. -/
theorem head?_tail (h : Spells text n tail) : ∀ c ∈ tail.head?, c = 'e' ∨ c = 'E' := by
  cases tail with
  | nil => simp
  | cons c cs =>
    have hexp := h.exponent
    unfold readExponent? at hexp
    dsimp only at hexp
    split at hexp
    · rename_i hc
      rintro _ ⟨⟩
      exact hc.1
    · cases hexp

theorem span_digits {ds rest : List Char} (hds : ∀ c ∈ ds, c.isDigit = true)
    (hrest : ∀ c ∈ rest.head?, c.isDigit = false) :
    (ds ++ rest).takeWhile Char.isDigit = ds ∧ (ds ++ rest).dropWhile Char.isDigit = rest := by
  rw [List.takeWhile_append_of_pos hds, List.dropWhile_append_of_pos hds]
  cases rest with
  | nil => simp
  | cons c cs => simp [hrest c rfl]

theorem tail_not_digit (h : Spells text n tail) : ∀ c ∈ tail.head?, c.isDigit = false := by
  intro c hc
  rcases h.head?_tail c hc with rfl | rfl <;> decide

theorem splitFraction_rest (h : Spells text n tail) :
    splitFraction ((if n.fraction = [] then [] else '.' :: n.fraction) ++ tail) =
      (n.fraction, tail) := by
  by_cases hf : n.fraction = []
  · rw [if_pos hf, hf, List.nil_append]
    cases tail with
    | nil => rfl
    | cons c cs =>
      have hc : c ≠ '.' := by
        rcases h.head?_tail c rfl with rfl | rfl <;> decide
      rw [splitFraction, if_neg hc]
  · have hspan := span_digits h.fraction_digits h.tail_not_digit
    rw [if_neg hf, List.cons_append, splitFraction, if_pos rfl, hspan.1, hspan.2]

theorem span_whole (h : Spells text n tail) :
    text.takeWhile Char.isDigit = n.whole ∧ text.dropWhile Char.isDigit =
      (if n.fraction = [] then [] else '.' :: n.fraction) ++ tail := by
  rw [h.text_eq, List.append_assoc]
  refine span_digits h.whole_digits fun c hc => ?_
  by_cases hf : n.fraction = []
  · rw [if_pos hf] at hc
    exact h.tail_not_digit c hc
  · rw [if_neg hf] at hc
    cases hc
    decide

theorem read?_eq (h : Spells text n tail) : Numeral.read? text = some n := by
  have hspan := h.span_whole
  have hne : n.whole ++ n.fraction ≠ [] := by simp [h.whole_ne_nil]
  simp only [Numeral.read?, hspan, h.splitFraction_rest, if_neg hne, h.exponent, Option.map_some]

theorem head_isDigit (h : Spells text n tail) : ∀ c ∈ text.head?, c.isDigit = true := by
  have hdigits := h.whole_digits
  rw [h.text_eq]
  cases hw : n.whole with
  | nil => exact absurd hw h.whole_ne_nil
  | cons d ds =>
    rw [hw] at hdigits
    rintro _ ⟨⟩
    exact hdigits d List.mem_cons_self

theorem isNumber_eq (h : Spells text n tail) (negative : Bool) :
    Json.isNumber ((if negative then ['-'] else []) ++ text) = true := by
  have hbody : (if ((if negative then ['-'] else []) ++ text).head? = some '-' then
      ((if negative then ['-'] else []) ++ text).drop 1
      else (if negative then ['-'] else []) ++ text) = text := by
    cases negative with
    | true => rfl
    | false =>
      refine if_neg fun hc => ?_
      exact absurd (h.head_isDigit '-' hc) (by decide)
  have hspan := h.span_whole
  have hrest : ((if n.fraction = [] then [] else '.' :: n.fraction) ++ tail).head? ≠ some '.' ∨
      n.fraction ≠ [] := by
    by_cases hf : n.fraction = []
    · rw [if_pos hf]
      refine .inl fun hc => ?_
      rcases h.head?_tail '.' hc with hc | hc <;> exact absurd hc (by decide)
    · exact .inr hf
  simp only [Json.isNumber, hbody, hspan, h.splitFraction_rest, h.exponent]
  simp only [Option.isSome_some, Bool.and_true, Bool.and_eq_true, decide_eq_true_eq,
    Bool.or_eq_true, beq_iff_eq]
  exact ⟨⟨h.whole_ne_nil, h.no_zero⟩, hrest⟩

theorem chars (h : Spells text n tail) (negative : Bool) :
    ∀ c ∈ (if negative then ['-'] else []) ++ text, Json.isNumberChar c = true := by
  have hdigit : ∀ c : Char, c.isDigit = true → Json.isNumberChar c = true := by
    intro c hc
    simp [Json.isNumberChar, hc]
  have htext : ∀ c ∈ text, Json.isNumberChar c = true := by
    intro c hc
    rw [h.text_eq, List.mem_append, List.mem_append] at hc
    rcases hc with (hc | hc) | hc
    · exact hdigit c (h.whole_digits c hc)
    · split at hc
      · cases hc
      · rcases List.mem_cons.1 hc with rfl | hc
        · decide
        · exact hdigit c (h.fraction_digits c hc)
    · exact h.tail_chars c hc
  intro c hc
  rw [List.mem_append] at hc
  rcases hc with hc | hc
  · cases negative with
    | true =>
      obtain rfl := List.mem_singleton.1 hc
      decide
    | false => cases hc
  · exact htext c hc

theorem splitSign_eq (h : Spells text n tail) (negative : Bool) :
    splitSign ((if negative then ['-'] else []) ++ text) = (negative, text) := by
  cases negative with
  | true => rfl
  | false =>
    have hhead := h.head_isDigit
    cases text with
    | nil => rfl
    | cons c cs =>
      have hc := hhead c rfl
      have hminus : c ≠ '-' := by rintro rfl; exact absurd hc (by decide)
      have hplus : c ≠ '+' := by rintro rfl; exact absurd hc (by decide)
      simp [splitSign, hminus, hplus]

end Spells


end RegisterMachine
