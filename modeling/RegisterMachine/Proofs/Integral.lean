/-
# Doubles taken to integers

Floor, ceiling and the nearest integer take the magnitude of a double to a whole
number less than one unit away (`Binary64.IsNext`). Whatever the number is, it is
the value of a double: a double with a fraction is below `2 ^ 53`, up to which
all whole numbers are doubles, and one without is its own whole number
(`Binary64.exists_quanta_whole`). So nothing is lost when the whole number is made
a double, and nothing when the double is read as an integer: the words are read
from the least one up to `2 ^ 63`, which is the double of the greatest word but
is itself left out, so that no word is saturated (`wholeInteger_finite`).

Key definitions: `Binary64.IsNext`.
Key theorems: `Binary64.exists_quanta_whole`, `wholeInteger_finite`,
`wholeInteger_toWhole`.
-/
import RegisterMachine.Operation.Integer
import RegisterMachine.Proofs.Binary64.Overflow

namespace RegisterMachine

namespace Binary64

/-! ### Whole numbers are doubles -/

/-- The whole number is less than one unit away. -/
def IsNext (whole : Bool → Nat → Nat) : Prop :=
  ∀ negative n, whole negative n * unit < n + unit ∧ n < whole negative n * unit + unit

theorem wholeDown_bounds (negative : Bool) (n : Nat) :
    signed negative (wholeDown negative n) * unit ≤ signed negative n ∧
      signed negative n < (signed negative (wholeDown negative n) + 1) * unit := by
  have hpos := unit_pos
  have hdiv := Nat.div_add_mod n unit
  have hmod := Nat.mod_lt n hpos
  have hdiv' := Nat.div_add_mod (n + unit - 1) unit
  have hmod' := Nat.mod_lt (n + unit - 1) hpos
  rw [← signed_mul, Int.add_mul, ← signed_mul, Int.one_mul]
  cases negative with
  | false =>
    simp only [wholeDown, signed_false, Bool.false_eq_true, if_false]
    rw [Nat.mul_comm]
    omega
  | true =>
    simp only [wholeDown, signed_true, if_true]
    rw [Nat.mul_comm]
    omega

theorem isNext_wholeDown : IsNext wholeDown := by
  intro negative n
  have hpos := unit_pos
  have hbounds := wholeDown_bounds negative n
  rw [← signed_mul, Int.add_mul, ← signed_mul, Int.one_mul] at hbounds
  cases negative <;> simp only [signed_false, signed_true] at hbounds <;> omega

theorem isNext_wholeUp : IsNext wholeUp := fun negative n => isNext_wholeDown (!negative) n

theorem isNext_wholeNearest : IsNext wholeNearest := by
  intro negative n
  have hpos := unit_pos
  have hlow := divNearest_le n unit
  have hhigh := le_divNearest n hpos
  unfold wholeNearest
  omega

/-- **A whole number next to a magnitude is a magnitude.** -/
theorem exists_quanta_whole {m : Magnitude} {k : Nat} (hlow : k * unit < m.quanta + unit)
    (hhigh : m.quanta < k * unit + unit) : ∃ m' : Magnitude, m'.quanta = k * unit := by
  by_cases hdvd : unit ∣ m.quanta
  · obtain ⟨c, hc⟩ := hdvd
    have hsame : k = c := by
      have hlt : k * unit < (c + 1) * unit := by
        rw [hc] at hlow
        linarith
      have hgt : c * unit < (k + 1) * unit := by
        rw [hc] at hhigh
        linarith
      have := Nat.lt_of_mul_lt_mul_right hlt
      have := Nat.lt_of_mul_lt_mul_right hgt
      omega
    exact ⟨m, by rw [hc, hsame, Nat.mul_comm]⟩
  · have hsmall := quanta_lt_of_not_dvd hdvd
    have hk : k ≤ 2 ^ 53 := by
      have hlt : k * unit < (2 ^ 53 + 1) * unit := by linarith
      have := Nat.lt_of_mul_lt_mul_right hlt
      omega
    exact exists_quanta_eq_units hk

/-- A double that is taken to a whole number has this number as its value. -/
theorem exists_toWhole_eq {whole : Bool → Nat → Nat} (hwhole : IsNext whole) (negative : Bool)
    (m : Magnitude) : ∃ m' : Magnitude, toWhole whole (.finite negative m) = .finite negative m' ∧
      m'.quanta = whole negative m.quanta * unit := by
  obtain ⟨m', hm'⟩ := exists_quanta_whole (hwhole negative m.quanta).1 (hwhole negative m.quanta).2
  have hself := nearest_quanta negative m' Nat.one_pos
  rw [Nat.mul_one, hm'] at hself
  exact ⟨m', hself, hm'⟩

/-! ### The words among the doubles -/

/-- The magnitude `2 ^ 63`, past the greatest word. -/
def wordBound : Magnitude := ⟨1086 * 2 ^ 52, by decide⟩

theorem quanta_wordBound : wordBound.quanta = 2 ^ 63 * unit := by decide +kernel

theorem ofInt_least : ofInt Word.least.val = .finite true wordBound := by decide +kernel

/-- The greatest word is rounded up. -/
theorem ofInt_greatest : ofInt Word.greatest.val = .finite false wordBound := by decide +kernel

/-- Between the two bounds a whole number is a word. -/
theorem whole_lt_of_bounds {negative : Bool} {m : Magnitude} {k : Nat} (hk : m.quanta = k * unit)
    (hlow : (ofInt Word.least.val).le (.finite negative m) = true)
    (hhigh : (finite negative m).lt (ofInt Word.greatest.val) = true) :
    -2 ^ 63 ≤ signed negative k ∧ signed negative k < 2 ^ 63 := by
  have hbound := quanta_wordBound
  rw [ofInt_least, le, rank?, rank?, decide_eq_true_iff] at hlow
  rw [ofInt_greatest, lt, rank?, rank?, decide_eq_true_iff] at hhigh
  have hlt : m.ordinal < wordBound.ordinal → k < 2 ^ 63 := by
    intro h
    have hquanta := Magnitude.quanta_lt_quanta h
    rw [hk, hbound] at hquanta
    exact Nat.lt_of_mul_lt_mul_right hquanta
  have hle : m.ordinal ≤ wordBound.ordinal → k ≤ 2 ^ 63 := by
    intro h
    have hquanta := ordinalQuanta_strictMono.monotone h
    rw [← Magnitude.quanta_eq, ← Magnitude.quanta_eq, hk, hbound] at hquanta
    exact Nat.le_of_mul_le_mul_right hquanta unit_pos
  cases negative with
  | false =>
    simp only [signed_false, signed_true] at hlow hhigh ⊢
    have := hlt (by omega)
    omega
  | true =>
    simp only [signed_false, signed_true] at hlow hhigh ⊢
    have := hle (by omega)
    omega

end Binary64

/-! ### Reading the integer -/

section WholeInteger

variable {negative : Bool} {m : Magnitude} {k : Nat}

theorem Word.val_ofBinary64 (hk : m.quanta = k * Binary64.unit)
    (hword : -2 ^ 63 ≤ signed negative k ∧ signed negative k < 2 ^ 63) :
    (Word.ofBinary64 (.finite negative m)).val = signed negative k := by
  rw [Word.ofBinary64, hk, Nat.mul_div_cancel _ Binary64.unit_pos]
  show max (-2 ^ 63) (min (2 ^ 63 - 1) (signed negative k)) = signed negative k
  omega

/-- **A double without a fraction is read as its value,** a word where it fits. -/
theorem wholeInteger_finite (hk : m.quanta = k * Binary64.unit) :
    wholeInteger (.finite negative m) = .ok (.ofInt (signed negative k)) := by
  rw [wholeInteger, if_neg (by simp [Binary64.isNaN]), if_neg (by simp [Binary64.isInfinite])]
  split
  · rename_i hbounds
    have hword := Binary64.whole_lt_of_bounds hk hbounds.1 hbounds.2
    rw [← Word.val_ofBinary64 hk hword, Value.ofInt_val]
  · rw [Binary64.truncate?, hk, Nat.mul_div_cancel _ Binary64.unit_pos]

theorem wholeInteger_toWhole {whole : Bool → Nat → Nat} (hwhole : Binary64.IsNext whole)
    (negative : Bool) (m : Magnitude) :
    wholeInteger (Binary64.toWhole whole (.finite negative m)) =
      .ok (.ofInt (signed negative (whole negative m.quanta))) := by
  obtain ⟨m', hround, hm'⟩ := Binary64.exists_toWhole_eq hwhole negative m
  rw [hround, wholeInteger_finite hm']

end WholeInteger

end RegisterMachine
