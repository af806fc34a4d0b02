/-
# Shown values are read back

The text of an integer is a literal for it, and the text of a complex number is no
literal. A finite double is shown with a point exactly if it has a fraction or is
below `10 ^ 15` (`Magnitude.textWith_pointed`, `Magnitude.textWith_whole`): what has
a fraction is the nearest double of no integer, so that its shortest decimal has one
too, and what has none is on the grid of the integers itself, so that its shortest
decimal is looked for no further. Text with a point is read as a double, the same one
because the shortest decimal is rounded to it. Text without a point is read as an
integer, which need not be the double's value but is rounded to it.

Key theorems: `Magnitude.unit_dvd_quanta`, `Magnitude.exponent_shortest_nonneg`,
`Magnitude.textWith_pointed`, `Magnitude.textWith_whole`, `State.resolve_text`.
-/
import RegisterMachine.Proofs.Coercion
import RegisterMachine.Proofs.Json.Float
import RegisterMachine.Proofs.Literal

namespace RegisterMachine

open Binary64 (unit unit_pos)

/-! ### Texts as literals -/

theorem Sign.ofNegative (negative : Bool) : Sign (if negative then ['-'] else []) negative := by
  cases negative with
  | false => exact .none
  | true => exact .minus

theorem DigitsOf.integerLiteral {ds : List Char} {n : ℕ} (h : DigitsOf ds n) (hne : ds ≠ [])
    (negative : Bool) :
    IntegerLiteral ((if negative then ['-'] else []) ++ ds) (signed negative n) := by
  obtain ⟨hall, rfl⟩ := digitsOf_iff.1 h
  obtain ⟨d, rest, rfl⟩ := List.exists_cons_of_ne_nil hne
  obtain ⟨hd, hrest⟩ := List.forall_mem_cons.1 hall
  have hgrouped : (rest.all fun c => c.isDigit || c == '_') = true :=
    List.all_eq_true.2 fun c hc => by rw [hrest c hc, Bool.true_or]
  have hfilter : rest.filter Char.isDigit = rest := List.filter_eq_self.2 hrest
  exact .intro (.ofNegative negative)
    (groupedOf_iff.2 ⟨d, rest, rfl, hd, hgrouped, by rw [hfilter]⟩)

theorem digitsOf_digitsOf (n : ℕ) : DigitsOf (digitsOf n) n :=
  digitsOf_iff.2 ⟨fun _ => isDigit_of_mem_digitsOf, (ofDigits_digitsOf n).symm⟩

theorem integerLiteral_signedDigits (n : ℤ) : IntegerLiteral (signedDigits n) n := by
  have h := (digitsOf_digitsOf n.natAbs).integerLiteral (digitsOf_ne_nil _) (n < 0)
  rwa [signed_natAbs, ← signedDigits_eq] at h

theorem IntegerLiteral.point_not_mem {cs : List Char} {n : ℤ} (h : IntegerLiteral cs n) :
    '.' ∉ cs := by
  obtain ⟨hsign, hbody⟩ := h
  obtain ⟨d, rest, rfl, hd, hrest, -⟩ := groupedOf_iff.1 hbody
  intro hmem
  rcases List.mem_append.1 hmem with hmem | hmem
  · cases hsign with
    | none => cases hmem
    | plus | minus => exact absurd (List.mem_singleton.1 hmem) (by decide)
  · rcases List.mem_cons.1 hmem with rfl | hmem
    · exact absurd hd (by decide)
    · exact absurd (List.all_eq_true.1 hrest '.' hmem) (by decide)

/-- A numeral behind a sign is read as the double nearest to it. -/
theorem readFloat?_of_read? (negative : Bool) {text : List Char} {n : Numeral}
    (h : Numeral.read? text = some n) :
    readFloat? ((if negative then ['-'] else []) ++ text) = some (.ofDecimal negative n.value) :=
  readFloat?_eq_some_iff.2 ⟨negative, .number n.value.toRat,
    .intro (.ofNegative negative) (.number (Numeral.decimalOf_of_read? h)),
    Binary64.isNegative_ofDecimal _ _, Binary64.isNearest_ofDecimal _ _⟩

/-! ### Decimals of a double -/

theorem pads_whole_point (n : ℕ) : (Numeral.value ⟨digitsOf n, ['0'], 0⟩).Pads ⟨n, 0⟩ := by
  refine ⟨1, ?_, rfl⟩
  have hzeros := Decimal.ofDigits_append_zeros (digitsOf n) 1
  rwa [ofDigits_digitsOf] at hzeros

/-- A decimal with places behind the point is written with the point, whatever follows a
whole number, and what is written is the decimal. -/
theorem Decimal.positional_of_neg {d : Decimal} (hd : d.coefficient ≠ 0) (hexp : ¬ 0 ≤ d.exponent)
    (tail : List Char) : '.' ∈ d.positional tail ∧
      ∃ n, Numeral.read? (d.positional tail) = some n ∧ n.value = d := by
  have htail : d.positional tail = d.positional ['.', '0'] := by
    rw [positional, positional, if_neg hexp, if_neg hexp]
  obtain ⟨n, hn, hvalue⟩ := spells_of_neg hd hexp
  rw [written_of_neg hexp] at hvalue
  refine ⟨?_, n, by rw [htail, hn.read?_eq], hvalue⟩
  rw [positional, if_neg hexp]
  split <;> simp

theorem Decimal.ordinal_of_nonneg {d : Decimal} (h : 0 ≤ d.exponent) :
    d.ordinal = nearestOrdinal (d.coefficient * 10 ^ d.exponent.toNat * unit) 1 := by
  have hplaces : (-d.exponent).toNat = 0 := by omega
  rw [Decimal.ordinal, Binary64.decimalRatio, hplaces, Nat.pow_zero]

theorem Binary64.ofDecimal_of_ordinal (negative : Bool) {d : Decimal} {m : Magnitude}
    (h : d.ordinal = m.ordinal) : ofDecimal negative d = .finite negative m := by
  rw [ofDecimal_eq, nearest_of_ordinal negative h]

namespace Magnitude

variable {m : Magnitude}

/-- **What is rounded from an integer has no fraction:** up to `2 ^ 53` an integer is not
rounded, and from there on no double has a fraction. -/
theorem unit_dvd_quanta {n : ℕ} (h : nearestOrdinal (n * unit) 1 = m.ordinal) :
    unit ∣ m.quanta := by
  rcases Nat.le_total n (2 ^ 53) with hn | hn
  · obtain ⟨k, hk⟩ := Binary64.exists_quanta_eq_units hn
    have hself := nearestOrdinal_quanta k Nat.one_pos
    rw [Nat.mul_one, hk, h] at hself
    rw [quanta_eq, hself, ← quanta_eq, hk]
    exact Nat.dvd_mul_left _ _
  · by_contra hdvd
    obtain ⟨k, hk⟩ := Binary64.exists_quanta_eq_units (Nat.le_refl (2 ^ 53))
    have hsmall := Binary64.quanta_lt_of_not_dvd hdvd
    have hle : k.quanta ≤ n * unit := hk.trans_le (Nat.mul_le_mul_right unit hn)
    have hordinal := nearestOrdinal_mono Nat.one_pos Nat.one_pos
      (Nat.mul_le_mul_right 1 ((Nat.mul_one _).trans_le hle))
    rw [nearestOrdinal_quanta k Nat.one_pos, h] at hordinal
    have hquanta := ordinalQuanta_strictMono.monotone hordinal
    rw [← quanta_eq, ← quanta_eq, hk] at hquanta
    exact absurd hsmall hquanta.not_gt

theorem ordinal_whole (hdvd : unit ∣ m.quanta) :
    (⟨m.quanta / unit, 0⟩ : Decimal).ordinal = m.ordinal := by
  have hself := nearestOrdinal_quanta m Nat.one_pos
  rw [Nat.mul_one] at hself
  rw [Decimal.ordinal_of_nonneg (Int.le_refl 0), Int.toNat_zero, Nat.pow_zero, Nat.mul_one,
    Nat.div_mul_cancel hdvd, hself]

/-- A magnitude without fraction is read back on the grid of the integers. -/
theorem isSome_neighbour?_zero (tie : Tie) (hdvd : unit ∣ m.quanta) :
    (m.neighbour? tie 0).isSome = true := by
  apply isSome_neighbour?
  left
  have hsteps : m.inSteps 0 = (m.quanta, unit) := by
    rw [inSteps, Int.neg_zero, Int.toNat_zero, Nat.pow_zero, Nat.mul_one, Nat.mul_one]
  rw [hsteps, Decimal.readsAs, beq_iff_eq]
  exact Binary64.ofDecimal_of_ordinal false (ordinal_whole hdvd)

/-- **The shortest decimal of an integer is an integer:** the search comes to the grid of
the integers at the latest, where the value itself is a point. -/
theorem exponent_shortest_nonneg (tie : Tie) (hm : m.ordinal ≠ 0) (hdvd : unit ∣ m.quanta) :
    0 ≤ (m.shortest tie).exponent := by
  have hlead : 0 ≤ m.leadingExponent := by
    obtain ⟨len, hlead, hlt, -⟩ := m.scaled_bounds
    have hunit : unit ≤ m.quanta := Nat.le_of_dvd (quanta_pos hm) hdvd
    have hpow : 10 ^ 400 < 10 ^ len := by
      apply Nat.lt_of_mul_lt_mul_right (a := unit)
      calc 10 ^ 400 * unit ≤ 10 ^ 400 * m.quanta := Nat.mul_le_mul_left _ hunit
        _ = m.quanta * 10 ^ 400 := Nat.mul_comm _ _
        _ < 10 ^ len * unit := hlt
    have hlen := (Nat.pow_lt_pow_iff_right (by omega)).1 hpow
    omega
  have hsearch : ∃ j : ℕ, j < 17 ∧ (j : ℤ) ≤ m.leadingExponent ∧
      (m.neighbour? tie (m.leadingExponent - j)).isSome = true := by
    -- seventeen digits end before the point if the first one stands far enough in front of it
    by_cases hlong : 16 ≤ m.leadingExponent
    · exact ⟨16, by omega, hlong, isSome_neighbour?_seventeen tie hm⟩
    · have hzero : m.leadingExponent - m.leadingExponent.toNat = 0 := by omega
      refine ⟨m.leadingExponent.toNat, by omega, by omega, ?_⟩
      rw [hzero]
      exact isSome_neighbour?_zero tie hdvd
  obtain ⟨j, hj, hjle, hsome⟩ := hsearch
  obtain ⟨i, hi, hd⟩ := firstBelow_spec m.exactDecimal hj hsome
  obtain ⟨-, hexp, -⟩ := neighbour?_eq_some hd
  obtain ⟨k, -, hstrip⟩ := Decimal.pads_strip 17 (m.shortestFrom tie 17 m.leadingExponent)
  rw [shortest, if_neg hm, hstrip, shortestFrom, hexp]
  omega

/-! ### The text of a double -/

theorem quanta_eq_zero (h : m.ordinal = 0) : m.quanta = 0 := by
  rw [quanta_eq, h, ordinalQuanta_zero]

theorem textWith_short (hdvd : unit ∣ m.quanta) (hshort : m.quanta < 10 ^ 15 * unit) :
    m.textWith ['.', '0'] = digitsOf (m.quanta / unit) ++ ['.', '0'] := by
  rw [textWith, if_pos ⟨Nat.mod_eq_zero_of_dvd hdvd, hshort⟩]

theorem textWith_long (h : ¬ (unit ∣ m.quanta ∧ m.quanta < 10 ^ 15 * unit)) :
    m.textWith ['.', '0'] = (m.shortest .up).positional [] := by
  rw [textWith, if_neg]
  rwa [← Nat.dvd_iff_mod_eq_zero]

/-- **A magnitude with a fraction or below `10 ^ 15` is shown with a point,** and what is
shown is rounded to it. -/
theorem textWith_pointed (h : ¬ (unit ∣ m.quanta ∧ 10 ^ 15 * unit ≤ m.quanta)) :
    '.' ∈ m.textWith ['.', '0'] ∧
      ∃ n, Numeral.read? (m.textWith ['.', '0']) = some n ∧ n.value.ordinal = m.ordinal := by
  by_cases hdvd : unit ∣ m.quanta
  · have hshort : m.quanta < 10 ^ 15 * unit := Nat.not_le.1 fun hle => h ⟨hdvd, hle⟩
    rw [textWith_short hdvd hshort]
    refine ⟨by simp, _, (spells_whole_point (m.quanta / unit)).read?_eq, ?_⟩
    rw [(pads_whole_point (m.quanta / unit)).ordinal_eq, ordinal_whole hdvd]
  · have hm : m.ordinal ≠ 0 := by
      intro hzero
      rw [quanta_eq_zero hzero] at hdvd
      exact hdvd (Nat.dvd_zero unit)
    obtain ⟨hordinal, hcoefficient, -⟩ := shortest_spec .up hm
    -- an integer is rounded to no magnitude with a fraction
    have hexp : ¬ 0 ≤ (m.shortest .up).exponent := by
      intro hexp
      rw [Decimal.ordinal_of_nonneg hexp] at hordinal
      exact hdvd (unit_dvd_quanta hordinal)
    rw [textWith_long fun hshort => hdvd hshort.1]
    obtain ⟨hpoint, n, hread, hvalue⟩ := Decimal.positional_of_neg hcoefficient hexp []
    exact ⟨hpoint, n, hread, by rw [hvalue, hordinal]⟩

/-- **A whole magnitude from `10 ^ 15` on is shown by digits only,** and the integer that
they spell is rounded to it. -/
theorem textWith_whole (hdvd : unit ∣ m.quanta) (hlong : 10 ^ 15 * unit ≤ m.quanta) :
    ∃ n, DigitsOf (m.textWith ['.', '0']) n ∧ m.textWith ['.', '0'] ≠ [] ∧
      nearestOrdinal (n * unit) 1 = m.ordinal := by
  have hm : m.ordinal ≠ 0 := by
    intro hzero
    rw [quanta_eq_zero hzero] at hlong
    exact absurd hlong (Nat.mul_pos (by decide) unit_pos).not_ge
  have hexp := exponent_shortest_nonneg .up hm hdvd
  obtain ⟨hordinal, -, -⟩ := shortest_spec .up hm
  rw [textWith_long fun hshort => absurd hshort.2 hlong.not_gt, Decimal.positional, if_pos hexp,
    List.append_nil]
  refine ⟨_, digitsOf_iff.2 ⟨?_, rfl⟩, by simp [Decimal.digits, digitsOf_ne_nil], ?_⟩
  · exact List.forall_mem_append.2 ⟨fun _ => Decimal.isDigit_of_mem_digits, Decimal.isDigit_zeros _⟩
  · rw [Decimal.ofDigits_append_zeros, Decimal.ofDigits_digits, ← Decimal.ordinal_of_nonneg hexp,
      hordinal]

end Magnitude

namespace Binary64

variable {x : Binary64}

/-- **Every double that is not an integer from `10 ^ 15` on is read back,** with its sign. -/
theorem readFloat?_textWith
    (h : ¬ ∃ k : ℤ, x.isFinite = true ∧ x.value = k ∧ 10 ^ 15 ≤ k.natAbs) :
    (∀ n, ¬ IntegerLiteral (x.textWith ['.', '0']) n) ∧
      readFloat? (x.textWith ['.', '0']) = some x := by
  match x with
  | .nan => exact ⟨readInteger?_eq_none_iff.1 rfl, rfl⟩
  | .infinite false | .infinite true =>
    exact ⟨readInteger?_eq_none_iff.1 rfl, rfl⟩
  | .finite negative m =>
    have hshort : ¬ (unit ∣ m.quanta ∧ 10 ^ 15 * unit ≤ m.quanta) := by
      rintro ⟨⟨c, hc⟩, hlong⟩
      refine h ⟨signed negative c, rfl, value_eq_intCast_iff.2 ?_, ?_⟩
      · rw [hc, Nat.mul_comm, signed_mul]
      · rw [hc, Nat.mul_comm unit] at hlong
        rw [natAbs_signed]
        exact Nat.le_of_mul_le_mul_right hlong unit_pos
    obtain ⟨hpoint, n, hread, hordinal⟩ := Magnitude.textWith_pointed hshort
    refine ⟨fun k hk => hk.point_not_mem (List.mem_append_right _ hpoint), ?_⟩
    rw [textWith, readFloat?_of_read? negative hread, ofDecimal_of_ordinal negative hordinal]

/-- **An integer from `10 ^ 15` on is shown as one that is rounded to it.** -/
theorem exists_integerLiteral_textWith {k : ℤ} (hx : x.isFinite = true) (hvalue : x.value = k)
    (hlarge : 10 ^ 15 ≤ k.natAbs) :
    ∃ n, IntegerLiteral (x.textWith ['.', '0']) n ∧ ofInt n = x := by
  match x, hx with
  | .finite negative m, _ =>
    obtain ⟨hquanta, -⟩ := quanta_of_value_eq hvalue
    have hdvd : unit ∣ m.quanta := ⟨k.natAbs, by rw [hquanta, Nat.mul_comm]⟩
    have hlong : 10 ^ 15 * unit ≤ m.quanta := by
      rw [hquanta]
      exact Nat.mul_le_mul_right unit hlarge
    obtain ⟨n, hdigits, hne, hordinal⟩ := Magnitude.textWith_whole hdvd hlong
    refine ⟨signed negative n, hdigits.integerLiteral hne negative, ?_⟩
    have hn : n ≠ 0 := by
      rintro rfl
      rw [Nat.zero_mul, nearestOrdinal_zero] at hordinal
      rw [Magnitude.quanta_eq_zero hordinal.symm] at hlong
      exact absurd hlong (Nat.mul_pos (by decide) unit_pos).not_ge
    rw [ofInt, decide_signed_lt_zero negative hn, natAbs_signed,
      nearest_of_ordinal negative hordinal]

end Binary64

/-! ### The text of a value -/

theorem no_literal_of_bracket (cs : List Char) :
    (∀ n, ¬ IntegerLiteral ('(' :: cs) n) ∧
      ∀ negative u, ¬ FloatLiteral ('(' :: cs) negative u := by
  rw [← readInteger?_eq_none_iff, ← readFloat?_eq_none_iff]
  exact ⟨rfl, rfl⟩

namespace State

/-- **What is shown of a value is read back as the value,** where the text names neither a
register nor an immutable: an integer in the encoding of its size, and a double with
its sign, NaN and the infinities among them. Only a double that is an integer from
`10 ^ 15` on is read back as an integer, one that is taken to this double. A complex
number is not read back, and what is reported names its text. All this holds whatever
sign a NaN is shown with. -/
theorem resolve_text (s : State) (v : Value) (nanNegative : Bool)
    (hr : s.registers.get? (v.textWith nanNegative) = none)
    (hi : s.immutables.get? (v.textWith nanNegative) = none) :
    (∀ n, v.exactInt? = some n → s.resolve (v.textWith nanNegative) = .ok (.ofInt n)) ∧
    (∀ x, v = .float x →
      (¬ ∃ k : ℤ, x.isFinite = true ∧ x.value = k ∧ 10 ^ 15 ≤ k.natAbs) →
      s.resolve (v.textWith nanNegative) = .ok (.float x)) ∧
    (∀ (x : Binary64) (k : ℤ), v = .float x → x.isFinite = true → x.value = k →
      10 ^ 15 ≤ k.natAbs →
      ∃ n, s.resolve (v.textWith nanNegative) = .ok (.ofInt n) ∧
        (Value.ofInt n).toBinary64 = .ok x) ∧
    ∀ z, v = .complex z → s.resolve (v.textWith nanNegative) = .error ⟨⟨.nameError,
      "Undefined register, immutable or literal '" ++ v.textWith nanNegative ++ "'."⟩,
      s.line⟩ := by
  have htext : (v.textWith nanNegative).toList = v.charsWith nanNegative := String.toList_ofList
  refine ⟨?_, ?_, ?_, ?_⟩
  · intro n hn
    apply resolve_of_integerLiteral hr hi
    rw [htext]
    cases v with
    | small w =>
      cases hn
      exact integerLiteral_signedDigits _
    | big m =>
      cases hn
      exact integerLiteral_signedDigits _
    | float _ | complex _ => cases hn
  · rintro x rfl hshort
    obtain ⟨hinteger, hread⟩ := Binary64.readFloat?_textWith hshort
    rw [Value.charsWith] at htext
    rw [← htext] at hinteger hread
    exact resolve_of_not_integerLiteral hr hi hinteger hread
  · rintro x k rfl hx hvalue hlarge
    obtain ⟨n, hliteral, hn⟩ := Binary64.exists_integerLiteral_textWith hx hvalue hlarge
    rw [Value.charsWith] at htext
    rw [← htext] at hliteral
    refine ⟨n, resolve_of_integerLiteral hr hi hliteral, ?_⟩
    rw [Value.toBinary64_ofInt, hn, if_pos hx]
  · rintro z rfl
    obtain ⟨hinteger, hfloat⟩ := no_literal_of_bracket (z.textWith nanNegative).tail
    have hbracket : ((Value.complex z).textWith nanNegative).toList =
        '(' :: (z.textWith nanNegative).tail := htext
    rw [← hbracket] at hinteger hfloat
    exact resolve_of_no_literal hr hi hinteger hfloat

/-- An unbounded integer that fits a word, negative zero, the greatest double, and a complex
number with a NaN of minus sign, on the first line. -/
theorem resolve_text_samples :
    initial.resolve (Value.big (-7)).text = .ok (.ofInt (-7)) ∧
    initial.resolve (Value.float (.finite true .zero)).text = .ok (.float (.finite true .zero)) ∧
    (∃ n, initial.resolve (Value.float (.finite false .greatest)).text = .ok (.ofInt n) ∧
      (Value.ofInt n).toBinary64 = .ok (.finite false .greatest)) ∧
    initial.resolve "(0-NaNj)" =
      .error ⟨⟨.nameError, "Undefined register, immutable or literal '(0-NaNj)'."⟩, 1⟩ := by
  refine ⟨?_, ?_, ?_, ?_⟩
  · exact (resolve_text initial (.big (-7)) false rfl rfl).1 _ rfl
  · refine (resolve_text initial (.float (.finite true .zero)) false rfl rfl).2.1 _ rfl ?_
    rintro ⟨k, -, hvalue, hlarge⟩
    obtain ⟨hquanta, -⟩ := Binary64.quanta_of_value_eq hvalue
    rw [Magnitude.quanta_eq_zero rfl] at hquanta
    have hzero := (Nat.mul_eq_zero.1 hquanta.symm).resolve_right unit_pos.ne'
    omega
  · exact (resolve_text initial (.float (.finite false .greatest)) false rfl rfl).2.2.1 _
      (2 ^ 1024 - 2 ^ 971) rfl rfl (Binary64.value_eq_intCast_iff.2 (by decide +kernel))
      (by decide +kernel)
  · have htext : (Value.complex ⟨.zero, .nan⟩).textWith true = "(0-NaNj)" := by decide +kernel
    have hrefused := (resolve_text initial (.complex ⟨.zero, .nan⟩) true rfl rfl).2.2.2 _ rfl
    rw [htext] at hrefused
    exact hrefused

end State

end RegisterMachine
