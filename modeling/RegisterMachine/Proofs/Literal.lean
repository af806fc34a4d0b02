/-
# The grammar of literals

What an operand word that is not declared means, told by spelling rules that
know nothing of how a word is read. Digits are spelled from left to right
(`DigitsOf`), each one adding its value to ten times what stands in front of it;
underscores are allowed in integers, behind the first digit only (`GroupedOf`).
An integer literal is a sign or none and such digits; a float literal is a sign
or none and a name, or digits with one point at most and a power of ten or none.
The readers are sound and complete for the rules (`readInteger?_eq_some_iff`,
`readFloat?_eq_some_iff`). The rules overlap in the plain integers, which are
integers: an underscore is no part of a float literal, and neither a point nor
a letter is part of an integer literal.

Key definitions: `IntegerLiteral`, `FloatLiteral`, `Unsigned.Denotes`.
Key theorems: `readInteger?_eq_some_iff`, `read?_eq_some_iff`,
`Binary64.isNearest_ofDecimal`, `readFloat?_eq_some_iff`, `State.resolve_literal`.
-/
import RegisterMachine.Proofs.Json.Numeral
import RegisterMachine.Proofs.RoundingLaws

namespace RegisterMachine

/-! ### Spelling -/

/-- A sign or none, and whether it is a minus sign. -/
inductive Sign : List Char → Bool → Prop
  | none : Sign [] false
  | plus : Sign ['+'] false
  | minus : Sign ['-'] true

/-- Digits, and the number that they spell. -/
inductive DigitsOf : List Char → ℕ → Prop
  | nil : DigitsOf [] 0
  | snoc {text : List Char} {n : ℕ} {c : Char} (front : DigitsOf text n)
      (digit : c.isDigit = true) : DigitsOf (text ++ [c]) (10 * n + (c.toNat - '0'.toNat))

/-- A digit and then digits and underscores, and the number that they spell. -/
inductive GroupedOf : List Char → ℕ → Prop
  | first {c : Char} (digit : c.isDigit = true) : GroupedOf [c] (c.toNat - '0'.toNat)
  | snoc {text : List Char} {n : ℕ} {c : Char} (front : GroupedOf text n)
      (digit : c.isDigit = true) : GroupedOf (text ++ [c]) (10 * n + (c.toNat - '0'.toNat))
  | underscore {text : List Char} {n : ℕ} (front : GroupedOf text n) :
      GroupedOf (text ++ ['_']) n

/-- The text is an integer literal for `n`. -/
inductive IntegerLiteral : List Char → ℤ → Prop
  | intro {sign body : List Char} {negative : Bool} {n : ℕ} (hsign : Sign sign negative)
      (hbody : GroupedOf body n) : IntegerLiteral (sign ++ body) (signed negative n)

/-- A power of ten behind the digits, or none. -/
inductive PowerOf : List Char → ℤ → Prop
  | none : PowerOf [] 0
  | written {letter : Char} {sign ds : List Char} {negative : Bool} {n : ℕ}
      (hletter : letter = 'e' ∨ letter = 'E') (hsign : Sign sign negative)
      (hdigits : DigitsOf ds n) (hne : ds ≠ []) :
      PowerOf (letter :: (sign ++ ds)) (signed negative n)

/-- Digits with one point at most and at least one digit, a power of ten or none, and
the number that they spell. -/
inductive DecimalOf : List Char → ℚ → Prop
  | whole {ds power : List Char} {n : ℕ} {e : ℤ} (hdigits : DigitsOf ds n) (hne : ds ≠ [])
      (hpower : PowerOf power e) : DecimalOf (ds ++ power) (n * 10 ^ e)
  | pointed {ds fraction power : List Char} {n : ℕ} {e : ℤ}
      (hdigits : DigitsOf (ds ++ fraction) n) (hne : ds ++ fraction ≠ [])
      (hpower : PowerOf power e) :
      DecimalOf (ds ++ '.' :: fraction ++ power) (n * 10 ^ (e - fraction.length))

/-- What a float literal names behind its sign: an exact number is still to be rounded. -/
inductive Unsigned where
  | infinity
  | nan
  | number (r : ℚ)

/-- The double that is named, given whether there is a minus sign. -/
def Unsigned.Denotes (negative : Bool) : Unsigned → Binary64 → Prop
  | .infinity, x => x = .infinite negative
  | .nan, x => x = .nan
  | .number r, x => x.isNegative = negative ∧ x.IsNearest (if negative then -r else r)

/-- What a float literal is made of behind its sign. -/
inductive UnsignedOf : List Char → Unsigned → Prop
  | infinity {name : List Char}
      (hname : name.map Char.toUpper = ['I', 'N', 'F'] ∨
        name.map Char.toUpper = ['I', 'N', 'F', 'I', 'N', 'I', 'T', 'Y']) :
      UnsignedOf name .infinity
  | nan {name : List Char} (hname : name.map Char.toUpper = ['N', 'A', 'N']) : UnsignedOf name .nan
  | number {body : List Char} {r : ℚ} (hbody : DecimalOf body r) : UnsignedOf body (.number r)

/-- The text is a float literal, with a minus sign or without. -/
inductive FloatLiteral : List Char → Bool → Unsigned → Prop
  | intro {sign body : List Char} {negative : Bool} {u : Unsigned} (hsign : Sign sign negative)
      (hbody : UnsignedOf body u) : FloatLiteral (sign ++ body) negative u

/-! ### Signs -/

theorem sign_of_splitSign {cs rest : List Char} {negative : Bool}
    (h : splitSign cs = (negative, rest)) : ∃ sign, cs = sign ++ rest ∧ Sign sign negative := by
  cases cs with
  | nil =>
    cases h
    exact ⟨[], rfl, .none⟩
  | cons c cs =>
    rw [splitSign] at h
    split at h
    · rename_i hminus
      cases h
      exact ⟨['-'], by rw [hminus, List.singleton_append], .minus⟩
    · split at h
      · rename_i hplus
        cases h
        exact ⟨['+'], by rw [hplus, List.singleton_append], .plus⟩
      · cases h
        exact ⟨[], rfl, .none⟩

theorem Sign.splitSign_append {sign rest : List Char} {negative : Bool} (h : Sign sign negative)
    (hrest : ∀ c ∈ rest.head?, c ≠ '-' ∧ c ≠ '+') :
    splitSign (sign ++ rest) = (negative, rest) := by
  cases h with
  | plus | minus => rfl
  | none =>
    cases rest with
    | nil => rfl
    | cons c cs =>
      obtain ⟨hminus, hplus⟩ := hrest c rfl
      rw [List.nil_append, splitSign, if_neg hminus, if_neg hplus]

theorem ne_sign_of_isDigit {c : Char} (h : c.isDigit = true) : c ≠ '-' ∧ c ≠ '+' :=
  ⟨by rintro rfl; exact absurd h (by decide), by rintro rfl; exact absurd h (by decide)⟩

/-! ### Digits -/

theorem ofDigits_concat (cs : List Char) (c : Char) :
    ofDigits (cs ++ [c]) = 10 * ofDigits cs + (c.toNat - '0'.toNat) := by
  rw [ofDigits_append, Nat.ofDigitChars_cons, Nat.ofDigitChars_nil]

theorem ofDigits_singleton (c : Char) : ofDigits [c] = c.toNat - '0'.toNat :=
  (ofDigits_concat [] c).trans (Nat.zero_add _)

theorem digitsOf_iff {cs : List Char} {n : ℕ} :
    DigitsOf cs n ↔ (∀ c ∈ cs, c.isDigit = true) ∧ n = ofDigits cs := by
  constructor
  · intro h
    induction h with
    | nil => simp [ofDigits]
    | snoc front digit ih =>
      rw [ofDigits_concat, ← ih.2]
      exact ⟨List.forall_mem_append.2 ⟨ih.1, List.forall_mem_singleton.2 digit⟩, rfl⟩
  · rintro ⟨hdigits, rfl⟩
    induction cs using List.reverseRecOn with
    | nil => exact .nil
    | append_singleton cs c ih =>
      rw [ofDigits_concat]
      simp only [List.mem_append, List.mem_singleton] at hdigits
      exact .snoc (ih fun d hd => hdigits d (.inl hd)) (hdigits c (.inr rfl))

/-- Grouped digits are a digit, then digits and underscores, and they spell the number
that is read from the digits among them. -/
theorem groupedOf_iff {cs : List Char} {n : ℕ} :
    GroupedOf cs n ↔ ∃ d rest, cs = d :: rest ∧ d.isDigit = true ∧
      (rest.all fun c => c.isDigit || c == '_') = true ∧
      n = ofDigits (d :: rest.filter Char.isDigit) := by
  constructor
  · intro h
    induction h with
    | @first c digit => exact ⟨c, [], rfl, digit, rfl, (ofDigits_singleton c).symm⟩
    | @snoc _ _ c _ digit ih =>
      obtain ⟨d, rest, rfl, hd, hrest, rfl⟩ := ih
      refine ⟨d, rest ++ [c], rfl, hd, by simp [hrest, digit], ?_⟩
      rw [List.filter_append, List.filter_cons_of_pos digit, List.filter_nil, ← List.cons_append,
        ofDigits_concat]
    | underscore _ ih =>
      obtain ⟨d, rest, rfl, hd, hrest, rfl⟩ := ih
      refine ⟨d, rest ++ ['_'], rfl, hd, by simp [hrest], ?_⟩
      rw [List.filter_append, List.filter_cons_of_neg (by decide), List.filter_nil,
        List.append_nil]
  · rintro ⟨d, rest, rfl, hd, hrest, rfl⟩
    -- the rules add the last character, so the induction takes it off
    induction rest using List.reverseRecOn with
    | nil =>
      rw [List.filter_nil, ofDigits_singleton]
      exact .first hd
    | append_singleton rest c ih =>
      rw [List.all_append, Bool.and_eq_true, List.all_cons, List.all_nil, Bool.and_true,
        Bool.or_eq_true, beq_iff_eq] at hrest
      rw [List.filter_append, ← List.cons_append, ← List.cons_append]
      rcases hrest.2 with hc | rfl
      · rw [List.filter_cons_of_pos hc, List.filter_nil, ofDigits_concat]
        exact .snoc (ih hrest.1) hc
      · rw [List.filter_cons_of_neg (by decide), List.filter_nil, List.append_nil]
        exact .underscore (ih hrest.1)

/-- **The texts that are read as an integer are the integer literals for it.** -/
theorem readInteger?_eq_some_iff {cs : List Char} {n : ℤ} :
    readInteger? cs = some n ↔ IntegerLiteral cs n := by
  constructor
  · intro h
    rcases hsplit : splitSign cs with ⟨negative, body⟩
    obtain ⟨sign, rfl, hsign⟩ := sign_of_splitSign hsplit
    rw [readInteger?, hsplit] at h
    cases body with
    | nil => cases h
    | cons d rest =>
      dsimp only at h
      split at h
      · rename_i hchars
        rw [Bool.and_eq_true] at hchars
        cases h
        exact .intro hsign (groupedOf_iff.2 ⟨d, rest, rfl, hchars.1, hchars.2, rfl⟩)
      · cases h
  · rintro ⟨hsign, hbody⟩
    obtain ⟨d, rest, rfl, hd, hrest, rfl⟩ := groupedOf_iff.1 hbody
    have hhead : ∀ c ∈ (d :: rest).head?, c ≠ '-' ∧ c ≠ '+' := by
      rintro _ ⟨⟩
      exact ne_sign_of_isDigit hd
    rw [readInteger?, hsign.splitSign_append hhead]
    dsimp only
    rw [if_pos (Bool.and_eq_true_iff.2 ⟨hd, hrest⟩)]

theorem readInteger?_eq_none_iff {cs : List Char} :
    readInteger? cs = none ↔ ∀ n, ¬ IntegerLiteral cs n := by
  rw [Option.eq_none_iff_forall_ne_some]
  exact forall_congr' fun n => not_congr readInteger?_eq_some_iff

/-! ### Decimal numbers -/

theorem readExponent?_eq_some_iff {cs : List Char} {e : ℤ} :
    readExponent? cs = some e ↔ PowerOf cs e := by
  constructor
  · intro h
    cases cs with
    | nil =>
      cases h
      exact .none
    | cons c cs =>
      rcases hsplit : splitSign cs with ⟨negative, ds⟩
      obtain ⟨sign, rfl, hsign⟩ := sign_of_splitSign hsplit
      rw [readExponent?, hsplit] at h
      dsimp only at h
      split at h
      · rename_i hchars
        obtain ⟨hletter, hne, hdigits⟩ := hchars
        cases h
        rw [List.all_eq_true] at hdigits
        exact .written hletter hsign (digitsOf_iff.2 ⟨hdigits, rfl⟩) hne
      · cases h
  · intro h
    cases h with
    | none => rfl
    | @written letter sign ds negative n hletter hsign hdigits hne =>
      obtain ⟨hall, rfl⟩ := digitsOf_iff.1 hdigits
      have hhead : ∀ c ∈ ds.head?, c ≠ '-' ∧ c ≠ '+' := fun c hc =>
        ne_sign_of_isDigit (hall c (List.mem_of_mem_head? hc))
      rw [readExponent?, hsign.splitSign_append hhead]
      dsimp only
      rw [if_pos ⟨hletter, hne, List.all_eq_true.2 hall⟩]

/-- The number that a decimal stands for. -/
def Decimal.toRat (d : Decimal) : ℚ := d.coefficient * 10 ^ d.exponent

theorem PowerOf.head?_eq {cs : List Char} {e : ℤ} (h : PowerOf cs e) :
    ∀ c ∈ cs.head?, c = 'e' ∨ c = 'E' := by
  cases h with
  | none => simp
  | written hletter _ _ _ =>
    rintro _ ⟨⟩
    exact hletter

theorem PowerOf.not_isDigit_head? {cs : List Char} {e : ℤ} (h : PowerOf cs e) :
    ∀ c ∈ cs.head?, c.isDigit = false := by
  intro c hc
  rcases h.head?_eq c hc with rfl | rfl <;> rfl

/-- The point is looked for where digits end. -/
theorem of_splitFraction {cs fraction rest : List Char}
    (h : splitFraction cs = (fraction, rest)) :
    (fraction = [] ∧ cs = rest) ∨
      ((∀ c ∈ fraction, c.isDigit = true) ∧ cs = '.' :: fraction ++ rest) := by
  cases cs with
  | nil =>
    cases h
    exact .inl ⟨rfl, rfl⟩
  | cons c cs =>
    rw [splitFraction] at h
    split at h
    · rename_i hpoint
      cases h
      refine .inr ⟨List.all_eq_true.1 List.all_takeWhile, ?_⟩
      rw [List.cons_append, List.takeWhile_append_dropWhile, hpoint]
    · cases h
      exact .inl ⟨rfl, rfl⟩

theorem DecimalOf.head?_eq {cs : List Char} {r : ℚ} (h : DecimalOf cs r) :
    ∃ c ∈ cs.head?, c.isDigit = true ∨ c = '.' := by
  cases h with
  | whole hdigits hne _ =>
    obtain ⟨d, ds, rfl⟩ := List.exists_cons_of_ne_nil hne
    exact ⟨d, rfl, .inl ((digitsOf_iff.1 hdigits).1 d List.mem_cons_self)⟩
  | @pointed ds _ _ _ _ hdigits _ _ =>
    cases ds with
    | nil => exact ⟨'.', rfl, .inr rfl⟩
    | cons d ds => exact ⟨d, rfl, .inl ((digitsOf_iff.1 hdigits).1 d List.mem_cons_self)⟩

namespace Numeral

theorem decimalOf_of_read? {cs : List Char} {n : Numeral} (h : read? cs = some n) :
    DecimalOf cs n.value.toRat := by
  have hwhole : ∀ c ∈ cs.takeWhile Char.isDigit, c.isDigit = true :=
    List.all_eq_true.1 List.all_takeWhile
  rw [← List.takeWhile_append_dropWhile (p := Char.isDigit) (l := cs)]
  rw [read?] at h
  generalize cs.takeWhile Char.isDigit = ds at *
  generalize cs.dropWhile Char.isDigit = tl at *
  rcases hsplit : splitFraction tl with ⟨fraction, rest⟩
  rw [hsplit] at h
  dsimp only at h
  split at h
  · cases h
  · rename_i hne
    obtain ⟨e, he, rfl⟩ := Option.map_eq_some_iff.1 h
    have hpower := readExponent?_eq_some_iff.1 he
    obtain ⟨rfl, rfl⟩ | ⟨hfraction, rfl⟩ := of_splitFraction hsplit
    · have hdecimal := DecimalOf.whole (digitsOf_iff.2 ⟨hwhole, rfl⟩) (by simpa using hne) hpower
      simpa [value, Decimal.toRat] using hdecimal
    · have hdigits := digitsOf_iff.2 ⟨List.forall_mem_append.2 ⟨hwhole, hfraction⟩, rfl⟩
      have hdecimal := DecimalOf.pointed hdigits hne hpower
      simpa [value, Decimal.toRat] using hdecimal

theorem read?_of_decimalOf {cs : List Char} {r : ℚ} (h : DecimalOf cs r) :
    ∃ n, read? cs = some n ∧ n.value.toRat = r := by
  cases h with
  | @whole ds power n e hdigits hne hpower =>
    obtain ⟨hall, rfl⟩ := digitsOf_iff.1 hdigits
    have hspan := Spells.span_digits hall hpower.not_isDigit_head?
    have hfraction : splitFraction power = ([], power) := by
      cases power with
      | nil => rfl
      | cons c cs => 
        have hpoint : c ≠ '.' := by rcases hpower.head?_eq c rfl with rfl | rfl <;> decide
        rw [splitFraction, if_neg hpoint]
    refine ⟨⟨ds, [], e⟩, ?_, by simp [value, Decimal.toRat]⟩
    rw [read?, hspan.1, hspan.2, hfraction]
    dsimp only
    rw [if_neg (by simpa using hne), readExponent?_eq_some_iff.2 hpower]
    rfl
  | @pointed ds fraction power n e hdigits hne hpower =>
    obtain ⟨hall, rfl⟩ := digitsOf_iff.1 hdigits
    obtain ⟨hds, hfraction⟩ := List.forall_mem_append.1 hall
    have hpoint : ∀ c ∈ ('.' :: fraction ++ power).head?, c.isDigit = false := by
      rintro _ ⟨⟩
      rfl
    have hspan := Spells.span_digits hds hpoint
    have hspan' := Spells.span_digits hfraction hpower.not_isDigit_head?
    refine ⟨⟨ds, fraction, e⟩, ?_, by simp [value, Decimal.toRat]⟩
    rw [List.append_assoc, read?, hspan.1, hspan.2, List.cons_append, splitFraction, if_pos rfl,
      hspan'.1, hspan'.2]
    dsimp only
    rw [if_neg hne, readExponent?_eq_some_iff.2 hpower]
    rfl

end Numeral

/-! ### Doubles -/

namespace Binary64

/-- **A decimal is rounded to the nearest double,** which keeps the sign. -/
theorem isNearest_ofDecimal (negative : Bool) (d : Decimal) :
    (ofDecimal negative d).IsNearest (if negative then -d.toRat else d.toRat) := by
  have h := isNearest_multiple negative d.coefficient (-d.exponent)
  have hvalue : (signed negative d.coefficient : ℚ) * 10 ^ d.exponent =
      if negative then -d.toRat else d.toRat := by
    cases negative <;> simp [Decimal.toRat]
  rw [Int.neg_neg, hvalue] at h
  rw [ofDecimal_eq]
  exact h

theorem isNegative_ofDecimal (negative : Bool) (d : Decimal) :
    (ofDecimal negative d).isNegative = negative := by
  rw [ofDecimal_eq, isNegative_nearest]

end Binary64

theorem Unsigned.Denotes.unique {negative : Bool} {u : Unsigned} {x y : Binary64}
    (hx : u.Denotes negative x) (hy : u.Denotes negative y) : x = y := by
  cases u with
  | infinity | nan => exact hx.trans hy.symm
  | number r => exact hx.2.unique hy.2 (hx.1.trans hy.1.symm)

theorem toUpper_of_isDigit_or_point {c : Char} (h : c.isDigit = true ∨ c = '.') :
    c.toUpper = c := by
  obtain hdigit | rfl := h
  · unfold Char.toUpper
    rw [dif_neg]
    rintro ⟨hlow, -⟩
    rw [Char.isDigit, Bool.and_eq_true, decide_eq_true_eq, decide_eq_true_eq] at hdigit
    exact absurd (UInt32.le_trans hlow hdigit.2) (by decide)
  · rfl

/-- A decimal number is no name. -/
theorem DecimalOf.map_toUpper_ne {body name : List Char} {r : ℚ} (h : DecimalOf body r)
    (hname : ∀ c ∈ name.head?, c.isDigit = false ∧ c ≠ '.') : body.map Char.toUpper ≠ name := by
  rintro rfl
  obtain ⟨d, hd, hfirst⟩ := h.head?_eq
  have hhead : (body.map Char.toUpper).head? = some d := by
    rw [List.head?_map, hd, Option.map_some, toUpper_of_isDigit_or_point hfirst]
  obtain ⟨hdigit, hpoint⟩ := hname d hhead
  rw [hdigit] at hfirst
  exact hfirst.elim Bool.false_ne_true hpoint

theorem UnsignedOf.head?_ne_sign {body : List Char} {u : Unsigned} (h : UnsignedOf body u) :
    ∀ c ∈ body.head?, c ≠ '-' ∧ c ≠ '+' := by
  intro c hc
  have hnamed {name : List Char} (hname : body.map Char.toUpper = name)
      (hfirst : ∀ d ∈ name.head?, d ≠ '-' ∧ d ≠ '+') : c ≠ '-' ∧ c ≠ '+' := by
    have hupper := hfirst c.toUpper (by rw [← hname, List.head?_map, hc]; rfl)
    exact ⟨by rintro rfl; exact hupper.1 rfl, by rintro rfl; exact hupper.2 rfl⟩
  cases h with
  | infinity hname =>
    rcases hname with hname | hname <;> exact hnamed hname (by rintro _ ⟨⟩; decide)
  | nan hname => exact hnamed hname (by rintro _ ⟨⟩; decide)
  | number hbody =>
    obtain ⟨d, hd, hfirst⟩ := hbody.head?_eq
    obtain rfl := Option.some.inj (hd.symm.trans hc)
    obtain hdigit | rfl := hfirst
    · exact ne_sign_of_isDigit hdigit
    · decide

/-- **The texts that are read as a double are the float literals,** and the double is the
one that they denote. -/
theorem readFloat?_eq_some_iff {cs : List Char} {x : Binary64} :
    readFloat? cs = some x ↔ ∃ negative u, FloatLiteral cs negative u ∧ u.Denotes negative x := by
  constructor
  · intro h
    rcases hsplit : splitSign cs with ⟨negative, body⟩
    obtain ⟨sign, rfl, hsign⟩ := sign_of_splitSign hsplit
    rw [readFloat?, hsplit] at h
    dsimp only at h
    split at h
    · rename_i hname
      cases h
      exact ⟨negative, .infinity, .intro hsign (.infinity hname), rfl⟩
    · split at h
      · rename_i hname
        cases h
        exact ⟨negative, .nan, .intro hsign (.nan hname), rfl⟩
      · obtain ⟨n, hn, rfl⟩ := Option.map_eq_some_iff.1 h
        exact ⟨negative, _, .intro hsign (.number (Numeral.decimalOf_of_read? hn)),
          Binary64.isNegative_ofDecimal _ _, Binary64.isNearest_ofDecimal _ _⟩
  · rintro ⟨negative, u, @⟨sign, body, _, _, hsign, hbody⟩, hx⟩
    rw [readFloat?, hsign.splitSign_append hbody.head?_ne_sign]
    dsimp only
    cases hbody with
    | infinity hname =>
      rw [if_pos hname]
      exact congrArg some hx.symm
    | nan hname =>
      rw [if_neg (by rw [hname]; decide), if_pos hname]
      exact congrArg some hx.symm
    | number hdecimal =>
      obtain ⟨n, hn, rfl⟩ := Numeral.read?_of_decimalOf hdecimal
      have hinfinity : ¬ (body.map Char.toUpper = ['I', 'N', 'F'] ∨
          body.map Char.toUpper = ['I', 'N', 'F', 'I', 'N', 'I', 'T', 'Y']) :=
        not_or.2 ⟨hdecimal.map_toUpper_ne (by rintro _ ⟨⟩; decide),
          hdecimal.map_toUpper_ne (by rintro _ ⟨⟩; decide)⟩
      have hdenotes : (Unsigned.number n.value.toRat).Denotes negative
          (.ofDecimal negative n.value) :=
        ⟨Binary64.isNegative_ofDecimal _ _, Binary64.isNearest_ofDecimal _ _⟩
      rw [if_neg hinfinity, if_neg (hdecimal.map_toUpper_ne (by rintro _ ⟨⟩; decide)), hn,
        Option.map_some, hdenotes.unique hx]

/-- Every float literal denotes a double, and it is the one that is read. -/
theorem FloatLiteral.readFloat?_eq {cs : List Char} {negative : Bool} {u : Unsigned}
    (h : FloatLiteral cs negative u) :
    ∃ x, readFloat? cs = some x ∧ ∀ y, u.Denotes negative y ↔ y = x := by
  have hexists : ∃ x, u.Denotes negative x := by
    obtain ⟨-, hbody⟩ := h
    cases hbody with
    | infinity | nan => exact ⟨_, rfl⟩
    | number hdecimal =>
      obtain ⟨n, -, rfl⟩ := Numeral.read?_of_decimalOf hdecimal
      exact ⟨.ofDecimal negative n.value, Binary64.isNegative_ofDecimal _ _,
        Binary64.isNearest_ofDecimal _ _⟩
  obtain ⟨x, hx⟩ := hexists
  exact ⟨x, readFloat?_eq_some_iff.2 ⟨negative, u, h, hx⟩, fun y =>
    ⟨fun hy => hy.unique hx, fun hy => hy ▸ hx⟩⟩

theorem readFloat?_eq_none_iff {cs : List Char} :
    readFloat? cs = none ↔ ∀ negative u, ¬ FloatLiteral cs negative u := by
  constructor
  · intro hnone negative u h
    obtain ⟨x, hx, -⟩ := h.readFloat?_eq
    rw [hnone] at hx
    cases hx
  · intro h
    refine Option.eq_none_iff_forall_ne_some.2 fun x hx => ?_
    obtain ⟨negative, u, hliteral, -⟩ := readFloat?_eq_some_iff.1 hx
    exact h negative u hliteral

/-! ### Operand words -/

theorem Value.ofInt_eq_dite (n : ℤ) :
    ofInt n = if h : -2 ^ 63 ≤ n ∧ n < 2 ^ 63 then .small ⟨n, h.1, h.2⟩ else .big n := by
  unfold ofInt Word.ofInt?
  by_cases h : -2 ^ 63 ≤ n ∧ n < 2 ^ 63
  · rw [dif_pos h, dif_pos h]
  · rw [dif_neg h, dif_neg h]

namespace State

section Undeclared

variable {s : State} {token : String} (hr : s.registers.get? token = none)
  (hi : s.immutables.get? token = none)

include hr hi

theorem resolve_of_integerLiteral {n : ℤ} (h : IntegerLiteral token.toList n) :
    s.resolve token = .ok (.ofInt n) := by
  simp only [resolve, hr, hi, readLiteral?, readInteger?_eq_some_iff.2 h]

/-- A word that is not declared and no integer literal is read as a double. -/
theorem resolve_of_not_integerLiteral {x : Binary64}
    (hinteger : ∀ n, ¬ IntegerLiteral token.toList n) (h : readFloat? token.toList = some x) :
    s.resolve token = .ok (.float x) := by
  simp only [resolve, hr, hi, readLiteral?, readInteger?_eq_none_iff.2 hinteger, h,
    Option.map_some]

theorem resolve_of_no_literal (hinteger : ∀ n, ¬ IntegerLiteral token.toList n)
    (hfloat : ∀ negative u, ¬ FloatLiteral token.toList negative u) :
    s.resolve token = .error (s.report .nameError
      ("Undefined register, immutable or literal '" ++ token ++ "'.")) := by
  simp only [resolve, hr, hi, readLiteral?, readInteger?_eq_none_iff.2 hinteger,
    readFloat?_eq_none_iff.2 hfloat, Option.map_none]

end Undeclared

/-- **What an operand word is.** A register goes before an immutable, and both go before a
literal. A word that is neither is read if and only if it is an integer literal or a
float literal: an integer literal gives the integer itself, in a word if it fits, any
other float literal gives the double that it denotes, and every other word is an
undefined name on the current line. This is the line behind the position, and line zero
where no 64-bit line is behind it. -/
theorem resolve_literal (s : State) (token : String) :
    (∀ v, s.registers.get? token = some v → s.resolve token = .ok v) ∧
    (∀ v, s.registers.get? token = none → s.immutables.get? token = some v →
      s.resolve token = .ok v) ∧
    (s.registers.get? token = none → s.immutables.get? token = none →
      ((∃ v, s.resolve token = .ok v) ↔
        (∃ n, IntegerLiteral token.toList n) ∨
          ∃ negative u, FloatLiteral token.toList negative u) ∧
      (∀ n, IntegerLiteral token.toList n →
        s.resolve token =
          .ok (if h : -2 ^ 63 ≤ n ∧ n < 2 ^ 63 then .small ⟨n, h.1, h.2⟩ else .big n)) ∧
      (∀ negative u, FloatLiteral token.toList negative u →
        (∀ n, ¬ IntegerLiteral token.toList n) →
        ∃ x, s.resolve token = .ok (.float x) ∧ ∀ y, u.Denotes negative y ↔ y = x) ∧
      ((∀ n, ¬ IntegerLiteral token.toList n) →
        (∀ negative u, ¬ FloatLiteral token.toList negative u) →
        s.resolve token = .error ⟨⟨.nameError,
          "Undefined register, immutable or literal '" ++ token ++ "'."⟩, s.line⟩)) ∧
    (s.position + 1 < 2 ^ 64 → s.line = s.position + 1) ∧
    (s.position + 1 = 2 ^ 64 → s.line = 0) := by
  refine ⟨fun _ => resolve_of_register, fun _ => resolve_of_immutable, fun hr hi =>
    ⟨⟨?_, ?_⟩, ?_, ?_, resolve_of_no_literal hr hi⟩, line_of_lt, line_last⟩
  · rintro ⟨v, hv⟩
    by_contra hnone
    obtain ⟨hinteger, hfloat⟩ := not_or.1 hnone
    rw [resolve_of_no_literal hr hi (not_exists.1 hinteger)
      fun negative u h => hfloat ⟨negative, u, h⟩] at hv
    cases hv
  · rintro (⟨n, hn⟩ | ⟨negative, u, hu⟩)
    · exact ⟨_, resolve_of_integerLiteral hr hi hn⟩
    · by_cases hinteger : ∃ n, IntegerLiteral token.toList n
      · obtain ⟨n, hn⟩ := hinteger
        exact ⟨_, resolve_of_integerLiteral hr hi hn⟩
      · obtain ⟨x, hx, -⟩ := hu.readFloat?_eq
        exact ⟨_, resolve_of_not_integerLiteral hr hi (not_exists.1 hinteger) hx⟩
  · intro n hn
    rw [resolve_of_integerLiteral hr hi hn, Value.ofInt_eq_dite]
  · intro negative u hu hinteger
    obtain ⟨x, hx, hdenotes⟩ := hu.readFloat?_eq
    exact ⟨x, resolve_of_not_integerLiteral hr hi hinteger hx, hdenotes⟩

/-- An integer with an underscore, a double with a point, a sign with no digit behind it
on the first line and on the last, an immutable that shadows a literal, and a register
that shadows both. -/
theorem resolve_literal_samples :
    initial.resolve "-1_0" = .ok (.small ⟨-10, by decide, by decide⟩) ∧
    (∃ x, initial.resolve "-.5e1" = .ok (.float x) ∧
      ∀ y, (Unsigned.number (5 * 10 ^ ((1 : ℤ) - 1))).Denotes true y ↔ y = x) ∧
    initial.resolve "+_5" =
      .error ⟨⟨.nameError, "Undefined register, immutable or literal '+_5'."⟩, 1⟩ ∧
    ({ initial with position := 2 ^ 64 - 1 } : State).resolve "+_5" =
      .error ⟨⟨.nameError, "Undefined register, immutable or literal '+_5'."⟩, 0⟩ ∧
    (initial.setImmutable "10" (.ofInt 7)).resolve "10" = .ok (.ofInt 7) ∧
    ((initial.declareRegister "10" (.ofInt 99)).setImmutable "10" (.ofInt 7)).resolve "10" =
      .ok (.ofInt 99) := by
  have hinteger : IntegerLiteral "-1_0".toList (-10) := readInteger?_eq_some_iff.1 (by decide)
  have hfloat : FloatLiteral "-.5e1".toList true (.number (5 * 10 ^ ((1 : ℤ) - 1))) := by
    have hdigits : DigitsOf ([] ++ ['5']) 5 := .snoc .nil rfl
    have hpower : PowerOf ['e', '1'] 1 := readExponent?_eq_some_iff.1 (by decide)
    exact .intro .minus (.number (.pointed hdigits (by decide) hpower))
  have hpoint : ∀ n, ¬ IntegerLiteral "-.5e1".toList n := readInteger?_eq_none_iff.1 (by decide)
  have hsign : ∀ n, ¬ IntegerLiteral "+_5".toList n := readInteger?_eq_none_iff.1 (by decide)
  have hsign' : ∀ negative u, ¬ FloatLiteral "+_5".toList negative u :=
    readFloat?_eq_none_iff.1 (by decide)
  refine ⟨?_, ?_, ?_, ?_, ?_, ?_⟩
  · exact ((resolve_literal initial "-1_0").2.2.1 rfl rfl).2.1 (-10) hinteger
  · exact ((resolve_literal initial "-.5e1").2.2.1 rfl rfl).2.2.1 true _ hfloat hpoint
  · obtain ⟨-, -, hread, hline, -⟩ := resolve_literal initial "+_5"
    rw [(hread rfl rfl).2.2.2 hsign hsign', hline (by decide)]
    rfl
  · obtain ⟨-, -, hread, -, hlast⟩ :=
      resolve_literal { initial with position := 2 ^ 64 - 1 } "+_5"
    rw [(hread rfl rfl).2.2.2 hsign hsign', hlast (by decide)]
    rfl
  · exact (resolve_literal _ "10").2.1 _ rfl (by decide)
  · exact (resolve_literal _ "10").1 _ (by decide)

end State

end RegisterMachine
