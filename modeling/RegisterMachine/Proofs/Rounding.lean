/-
# Rounding to places is correct

A double rounded to places is the double nearest to a multiple of a power of
ten, and the multiple is the one nearest to the value of the double
(`Binary64.RoundsTo`); each time the even one of two that are equally near is
meant. It is one specification for all places, and the two ways in which
rounding is done meet it, as well as the bounds of the places: from three
hundred and twenty-four places on a double is rounded to itself, because the
multiples are closer together than the quanta, and to three hundred and nine
digits before the point and more it is rounded to zero, because half a step is
past the greatest double.

An integer is rounded to a multiple of a power of ten and no further; it is a
word again where it fits.

Key definitions: `Binary64.RoundsTo`.
Key theorems: `Magnitude.isNearestMultiple_multiple`,
`Binary64.roundPlaces_eq_nearest`, `Binary64.roundsTo_roundPlaces`,
`roundInteger_saturate`, `isNearestMultiple_roundInteger`, `evaluate_round_float`,
`evaluate_round_integer`.
-/
import RegisterMachine.Proofs.Binary64.Closest
import RegisterMachine.Proofs.Encoding

namespace RegisterMachine

/-! ### Steps -/

theorem step_pos (places : ℤ) : (0 : ℚ) < 10 ^ (-places) := zpow_pos (by norm_num) _

theorem step_eq (places : ℤ) :
    (10 : ℚ) ^ (-places) = ((10 ^ (-places).toNat : ℕ) : ℚ) / ((10 ^ places.toNat : ℕ) : ℚ) := by
  rw [Nat.cast_pow, Nat.cast_pow, Nat.cast_ofNat, ← zpow_natCast, ← zpow_natCast,
    ← zpow_sub₀ (by norm_num)]
  congr 1
  omega

/-! ### Doubles -/

/-- **The quotient that a double is rounded by is the nearest one.** -/
theorem Magnitude.isNearestMultiple_multiple (m : Magnitude) (negative : Bool) (places : ℤ) :
    IsNearestMultiple (10 ^ (-places)) (Binary64.finite negative m).value
      (signed negative (m.multiple places) * 10 ^ (-places)) := by
  have hd : 0 < Binary64.unit * 10 ^ (-places).toNat :=
    Nat.mul_pos Binary64.unit_pos (Nat.pow_pos (by omega))
  have h := isNearestMultiple_divNearest negative (m.quanta * 10 ^ places.toNat) hd
    (step_pos places)
  have hvalue : (signed negative (m.quanta * 10 ^ places.toNat) : ℚ) /
      ((Binary64.unit * 10 ^ (-places).toNat : ℕ) : ℚ) * 10 ^ (-places) =
        (Binary64.finite negative m).value := by
    have hunit : (Binary64.unit : ℚ) ≠ 0 := Nat.cast_ne_zero.2 Binary64.unit_pos.ne'
    rw [step_eq, signed_mul, Int.cast_mul, Int.cast_natCast, Nat.cast_mul, Binary64.value,
      Binary64.quantum]
    show _ = (signed negative m.quanta : ℚ) * _
    field_simp
  rwa [hvalue] at h

namespace Binary64

/-- The double is a nearest multiple, rounded to the nearest double, with the sign of
the double that is rounded. -/
def RoundsTo (places : ℤ) (x y : Binary64) : Prop :=
  y.isNegative = x.isNegative ∧
    ∃ multiple : ℚ, IsNearestMultiple (10 ^ (-places)) x.value multiple ∧ y.IsNearest multiple

theorem RoundsTo.unique {places : ℤ} {x y y' : Binary64} (h : RoundsTo places x y)
    (h' : RoundsTo places x y') : y = y' := by
  obtain ⟨hsign, multiple, hmultiple, hnearest⟩ := h
  obtain ⟨hsign', multiple', hmultiple', hnearest'⟩ := h'
  obtain rfl := hmultiple.unique (step_pos places) hmultiple'
  exact hnearest.unique hnearest' (hsign.trans hsign'.symm)

theorem isNegative_nearest (negative : Bool) (n d : ℕ) :
    (nearest negative n d).isNegative = negative := by
  unfold nearest
  split <;> rfl

theorem isNearest_multiple (negative : Bool) (n : ℕ) (places : ℤ) :
    (nearest negative (n * 10 ^ (-places).toNat * unit) (10 ^ places.toNat)).IsNearest
      (signed negative n * 10 ^ (-places)) := by
  have h := isNearest_nearest negative (n * 10 ^ (-places).toNat * unit)
    (d := 10 ^ places.toNat) (Nat.pow_pos (by omega))
  have hvalue : (signed negative (n * 10 ^ (-places).toNat * unit) : ℚ) /
      ((10 ^ places.toNat : ℕ) : ℚ) * quantum = signed negative n * 10 ^ (-places) := by
    have hunit : (unit : ℚ) ≠ 0 := Nat.cast_ne_zero.2 unit_pos.ne'
    rw [step_eq, signed_mul, signed_mul, Int.cast_mul, Int.cast_mul, Int.cast_natCast,
      Int.cast_natCast, quantum]
    field_simp
  rwa [hvalue] at h

end Binary64

section Bounds

variable {places : ℤ} (m : Magnitude)

/-- Where the multiples are closer together than the quanta, rounding leaves the
double. -/
theorem Magnitude.nearest_multiple (hplaces : 324 ≤ places) (negative : Bool) :
    Binary64.nearest negative (m.multiple places * 10 ^ (-places).toNat * Binary64.unit)
      (10 ^ places.toNat) = .finite negative m := by
  have hdigits : (-places).toNat = 0 := by omega
  have hlt : Binary64.unit < 10 ^ places.toNat := by
    calc Binary64.unit < 10 ^ 324 := by decide +kernel
      _ ≤ 10 ^ places.toNat := Nat.pow_le_pow_right (by omega) (by omega)
  rw [Magnitude.multiple, hdigits, Nat.pow_zero, Nat.mul_one, Nat.mul_one]
  generalize 10 ^ places.toNat = w at hlt
  have hlow := divNearest_le (m.quanta * w) Binary64.unit
  have hhigh := le_divNearest (m.quanta * w) Binary64.unit_pos
  have hcomm := Nat.mul_comm w m.quanta
  exact Binary64.nearest_of_near negative m (by omega) (by omega) (by omega)

/-- Where half a step is past the doubles, the nearest multiple is zero. -/
theorem Magnitude.multiple_eq_zero (hplaces : places ≤ -309) : m.multiple places = 0 := by
  have htens : places.toNat = 0 := by omega
  rw [Magnitude.multiple, htens, Nat.pow_zero, Nat.mul_one]
  apply divNearest_eq_zero
  calc 2 * m.quanta < 2 * overflowQuanta :=
        Nat.mul_lt_mul_of_pos_left m.quanta_lt_overflowQuanta (by omega)
    _ ≤ Binary64.unit * 10 ^ 309 := by decide +kernel
    _ ≤ Binary64.unit * 10 ^ (-places).toNat :=
      Nat.mul_le_mul_left _ (Nat.pow_le_pow_right (by omega) (by omega))

end Bounds

namespace Binary64

/-- **Rounding is the same without bounds on the places.** -/
theorem roundPlaces_eq_nearest (places : ℤ) (negative : Bool) (m : Magnitude) :
    roundPlaces places (.finite negative m) =
      nearest negative (m.multiple places * 10 ^ (-places).toNat * unit) (10 ^ places.toNat) := by
  rw [roundPlaces_finite]
  by_cases hbound : places.natAbs ≤ 400
  · rw [clampPlaces_of_le hbound]
  · rcases Int.lt_or_le places 0 with hneg | hpos
    · have hclamp : clampPlaces places ≤ -309 := by
        unfold clampPlaces placesBound
        omega
      rw [m.multiple_eq_zero hclamp, m.multiple_eq_zero (by omega), Nat.zero_mul,
        Nat.zero_mul, Nat.zero_mul, Nat.zero_mul, nearest_zero, nearest_zero]
    · have hclamp : 324 ≤ clampPlaces places := by
        unfold clampPlaces placesBound
        omega
      rw [m.nearest_multiple hclamp, m.nearest_multiple (by omega)]

theorem roundPlaces_of_le {places : ℤ} (hplaces : 324 ≤ places) (x : Binary64) :
    x.roundPlaces places = x := by
  match x with
  | .nan | .infinite _ => rfl
  | .finite negative m => rw [roundPlaces_eq_nearest, m.nearest_multiple hplaces]

theorem roundPlaces_of_ge {places : ℤ} (hplaces : places ≤ -309) {x : Binary64}
    (hx : x.isFinite = true) : x.roundPlaces places = .finite x.isNegative .zero := by
  match x, hx with
  | .finite negative m, _ =>
    rw [roundPlaces_eq_nearest, m.multiple_eq_zero hplaces, Nat.zero_mul, Nat.zero_mul,
      nearest_zero]
    rfl

/-- Places past the bound round as the bound does. -/
theorem roundPlaces_clampPlaces (places : ℤ) (x : Binary64) :
    x.roundPlaces (clampPlaces places) = x.roundPlaces places := by
  match x with
  | .nan | .infinite _ => rfl
  | .finite negative m =>
    have hclamp : clampPlaces (clampPlaces places) = clampPlaces places := by
      unfold clampPlaces placesBound
      omega
    rw [roundPlaces_finite, roundPlaces_finite, hclamp]

/-- **Rounding to places is correct,** for all places. -/
theorem roundsTo_roundPlaces {x : Binary64} (hx : x.isFinite = true) (places : ℤ) :
    RoundsTo places x (x.roundPlaces places) := by
  match x, hx with
  | .finite negative m, _ =>
    rw [roundPlaces_eq_nearest]
    exact ⟨isNegative_nearest _ _ _, _, m.isNearestMultiple_multiple negative places,
      isNearest_multiple negative _ places⟩

end Binary64

/-! ### Integers -/

theorem two_mul_lt_pow {n k : ℕ} (h : decimalLength n < k) : 2 * n < 10 ^ k := by
  have hlt := lt_pow_decimalLength n
  calc 2 * n < 10 ^ decimalLength n * 10 := by omega
    _ = 10 ^ (decimalLength n + 1) := (Nat.pow_succ ..).symm
    _ ≤ 10 ^ k := Nat.pow_le_pow_right (by omega) h

section Integers

variable {n : ℤ} (hlen : decimalLength n.natAbs < 2 ^ 32) (places : ℤ)

include hlen

/-- More zeros than the integer has digits leave nothing of it. -/
theorem roundInteger_eq_zero (hplaces : places ≤ -2 ^ 32) : roundInteger n places = 0 := by
  have hshort : decimalLength n.natAbs < places.natAbs := by omega
  rw [roundInteger_eq hlen, if_neg (by omega), divNearest_eq_zero (two_mul_lt_pow hshort),
    Nat.zero_mul]
  cases decide (n < 0) <;> rfl

/-- **Places past a word round an integer as the word does** that is nearest to them. -/
theorem roundInteger_saturate :
    roundInteger n (Word.saturate places).val = roundInteger n places := by
  have hword : (Word.saturate places).val = max (-2 ^ 63) (min (2 ^ 63 - 1) places) := rfl
  rcases Int.lt_or_le places (-2 ^ 63) with hlow | hlow
  · rw [roundInteger_eq_zero hlen _ (by omega), roundInteger_eq_zero hlen _ (by omega)]
  · rcases Int.lt_or_le places (2 ^ 63) with hhigh | hhigh
    · rw [hword]
      congr 1
      omega
    · rw [roundInteger, roundInteger, if_pos (by omega), if_pos (by omega)]

/-- **An integer is rounded to the nearest multiple.** -/
theorem isNearestMultiple_roundInteger :
    IsNearestMultiple (10 ^ (-places)) n (roundInteger n places) := by
  have h := isNearestMultiple_divNearest (decide (n < 0)) (n.natAbs * 10 ^ places.toNat)
    (d := 10 ^ (-places).toNat) (Nat.pow_pos (by omega)) (step_pos places)
  have hvalue : (signed (n < 0) (n.natAbs * 10 ^ places.toNat) : ℚ) /
      ((10 ^ (-places).toNat : ℕ) : ℚ) * 10 ^ (-places) = n := by
    rw [step_eq, signed_mul, signed_natAbs, Int.cast_mul, Int.cast_natCast]
    field_simp
  have hmultiple : (signed (n < 0)
      (divNearest (n.natAbs * 10 ^ places.toNat) (10 ^ (-places).toNat)) : ℚ) * 10 ^ (-places) =
        roundInteger n places := by
    rw [roundInteger_eq hlen, step_eq]
    by_cases hpos : 0 ≤ places
    · have hneg : (-places).toNat = 0 := by omega
      rw [if_pos hpos, hneg, Nat.pow_zero, divNearest_one, signed_mul, signed_natAbs, Int.cast_mul,
        Int.cast_natCast]
      field_simp
      simp
    · have hneg : (-places).toNat = places.natAbs := by omega
      have htens : places.toNat = 0 := by omega
      rw [if_neg hpos, hneg, htens, Nat.pow_zero, Nat.mul_one, signed_mul, Int.cast_mul,
        Int.cast_natCast, Nat.cast_one, div_one]
  rwa [hvalue, hmultiple] at h

end Integers

/-! ### The operation -/

section Operation

variable {name : String} (hname : Operation.round.Named name 2) {places : Value} {p : ℤ}
  (hp : places.toInteger = .ok p)

include hname hp

theorem evaluate_round (x : Value) (line : ℕ) :
    evaluate name [x, places] line = (roundToPlaces x places).mapError fun cause =>
      (cause.failure.inOperation Operation.round.name).atLine line := by
  have hintegral : places.isIntegral = true := by
    rw [Value.isIntegral, hp]
    rfl
  have hcheck : Domain.decimalPlaces.check .round [x, places] = .ok () := by
    show Domain.require _ places.isIntegral = .ok ()
    rw [hintegral]
    rfl
  exact evaluate_of_admitted line hname hcheck

theorem evaluate_round_double (x : Binary64) (line : ℕ) :
    evaluate name [.float x, places] line = .ok (.float (x.roundPlaces p)) := by
  rw [evaluate_round hname hp, roundToPlaces, hp]
  dsimp only
  rw [x.roundPlaces_saturate]
  rfl

theorem evaluate_round_word {v : Value} {n : ℤ} (hv : v.exactInt? = some n) (line : ℕ) :
    evaluate name [v, places] line =
      .ok (.ofInt (roundInteger n (Word.saturate p).val)) := by
  rw [evaluate_round hname hp, roundToPlaces, hp]
  cases v with
  | small w =>
    obtain rfl := Option.some.inj hv
    rfl
  | big k =>
    obtain rfl := Option.some.inj hv
    rfl
  | float x => cases hv
  | complex z => cases hv

theorem evaluate_round_exactInt {v : Value} {n : ℤ} (hv : v.exactInt? = some n)
    (hlen : decimalLength n.natAbs < 2 ^ 32) (line : ℕ) :
    evaluate name [v, places] line = .ok (.ofInt (roundInteger n p)) := by
  rw [evaluate_round_word hname hp hv, roundInteger_saturate hlen p]

end Operation

theorem Value.ofInt_word (k : ℤ) :
    if -2 ^ 63 ≤ k ∧ k < 2 ^ 63 then ∃ w : Word, w.val = k ∧ Value.ofInt k = .small w
    else Value.ofInt k = .big k := by
  unfold Value.ofInt Word.ofInt?
  by_cases h : -2 ^ 63 ≤ k ∧ k < 2 ^ 63
  · rw [if_pos h, dif_pos h]
    exact ⟨⟨k, h.1, h.2⟩, rfl, rfl⟩
  · rw [if_neg h, dif_neg h]

section Operation

variable {name : String} (hname : Operation.round.Named name 2) {places : Value} {p : ℤ}
  (hp : places.toInteger = .ok p)

include hname hp

/-- **Rounding a double to places.** For every finite double and every integer of
places, rounding answers the one double that is the nearest to the nearest
multiple and has the sign of the operand; from three hundred and twenty-four
places on it is the operand, and for three hundred and nine digits before the
point and more it is zero. Places brought to four hundred either way or into a
word give the same. Infinities and NaN are answered as they are. -/
theorem evaluate_round_float (x : Binary64) (line : ℕ) :
    (x.isFinite = false → evaluate name [.float x, places] line = .ok (.float x)) ∧
    (x.isFinite = true → ∃ y, evaluate name [.float x, places] line = .ok (.float y) ∧
      (∀ z, x.RoundsTo p z ↔ z = y) ∧ (324 ≤ p → y = x) ∧
      (p ≤ -309 → y = .finite x.isNegative .zero)) ∧
    ∀ (bounded : Value) (q : ℤ), bounded.toInteger = .ok q →
      q = max (-400) (min 400 p) ∨ q = max (-2 ^ 63) (min (2 ^ 63 - 1) p) →
      evaluate name [.float x, bounded] line = evaluate name [.float x, places] line := by
  refine ⟨fun hx => ?_, fun hx => ?_, fun bounded q hbounded hq => ?_⟩
  · rw [evaluate_round_double hname hp]
    match x, hx with
    | .nan, _ | .infinite _, _ => rfl
  · have hround := Binary64.roundsTo_roundPlaces hx p
    refine ⟨x.roundPlaces p, evaluate_round_double hname hp x line, fun z => ?_, fun hlarge => ?_,
      fun hsmall => ?_⟩
    · constructor
      · exact fun h => h.unique hround
      · rintro rfl
        exact hround
    · exact Binary64.roundPlaces_of_le hlarge x
    · exact Binary64.roundPlaces_of_ge hsmall hx
  · rw [evaluate_round_double hname hp, evaluate_round_double hname hbounded]
    rcases hq with rfl | rfl
    · rw [← x.roundPlaces_clampPlaces p]
      rfl
    · rw [← x.roundPlaces_saturate p]
      rfl

end Operation

/-- What counts is the value of the double: `2.675` is below the middle. -/
theorem evaluate_round_float_below_middle :
    evaluate "ROUND" [.float (.ofDecimal false ⟨2675, -3⟩), .ofInt 2] 1 =
        .ok (.float (.ofDecimal false ⟨267, -2⟩)) ∧
      ∀ z, (Binary64.ofDecimal false ⟨2675, -3⟩).RoundsTo 2 z ↔ z = .ofDecimal false ⟨267, -2⟩ := by
  have hvalue : evaluate "ROUND" [.float (.ofDecimal false ⟨2675, -3⟩), .ofInt 2] 1 =
      .ok (.float (.ofDecimal false ⟨267, -2⟩)) := by decide +kernel
  obtain ⟨y, hy, hround, -⟩ :=
    (@evaluate_round_float "ROUND" ⟨by decide +kernel, by decide⟩ (.ofInt 2) 2 (by decide +kernel)
      (.ofDecimal false ⟨2675, -3⟩) 1).2.1 (by decide +kernel)
  have hdouble : y = .ofDecimal false ⟨267, -2⟩ :=
    Value.float.inj (Except.ok.inj (hy.symm.trans hvalue))
  rw [hdouble] at hround
  exact ⟨hvalue, hround⟩

section Operation

variable {name : String} (hname : Operation.round.Named name 2) {places : Value} {p : ℤ}
  (hp : places.toInteger = .ok p)

include hname hp

/-- **Rounding an integer to places.** For every integer below `2 ^ 32` digits, in
either encoding, and every integer of places, rounding answers the nearest
multiple, which is the integer itself where places are not negative and zero
where they are below every word; it is a word exactly if it fits one. -/
theorem evaluate_round_integer {v : Value} {n : ℤ} (hv : v.exactInt? = some n)
    (hlen : decimalLength n.natAbs < 2 ^ 32) (line : ℕ) :
    ∃ k : ℤ, evaluate name [v, places] line = .ok (.ofInt k) ∧
      (∀ r : ℚ, IsNearestMultiple (10 ^ (-p)) n r ↔ r = k) ∧
      (0 ≤ p → k = n) ∧ (p < -2 ^ 63 → k = 0) ∧
      if -2 ^ 63 ≤ k ∧ k < 2 ^ 63 then ∃ w : Word, w.val = k ∧ Value.ofInt k = .small w
      else Value.ofInt k = .big k := by
  have hnearest := isNearestMultiple_roundInteger hlen p
  refine ⟨roundInteger n p, evaluate_round_exactInt hname hp hv hlen line, fun r => ?_,
    fun hpos => if_pos hpos, fun hlow => roundInteger_eq_zero hlen p (by omega),
    Value.ofInt_word _⟩
  constructor
  · exact fun h => h.unique (step_pos p) hnearest
  · rintro rfl
    exact hnearest

end Operation

/-- Rounded to tens, the greatest word is past the words. -/
theorem evaluate_round_integer_greatest :
    evaluate "Round" [.small ⟨2 ^ 63 - 1, by decide, by decide⟩, .ofInt (-1)] 1 =
        .ok (.big (2 ^ 63 + 2)) ∧
      ∀ r : ℚ, IsNearestMultiple (10 ^ (1 : ℤ)) (2 ^ 63 - 1 : ℤ) r ↔ r = (2 ^ 63 + 2 : ℤ) := by
  have hvalue : evaluate "Round" [.small ⟨2 ^ 63 - 1, by decide, by decide⟩, .ofInt (-1)] 1 =
      .ok (.big (2 ^ 63 + 2)) := by decide +kernel
  obtain ⟨k, hk, hnearest, -⟩ :=
    @evaluate_round_integer "Round" ⟨by decide +kernel, by decide⟩ (.ofInt (-1)) (-1)
      (by decide +kernel) (.small ⟨2 ^ 63 - 1, by decide, by decide⟩) _ rfl (by decide +kernel) 1
  have hbig : Value.ofInt k = .big (2 ^ 63 + 2) := Except.ok.inj (hk.symm.trans hvalue)
  have hinteger : k = 2 ^ 63 + 2 := by
    have hexact := Value.exactInt?_ofInt k
    rw [hbig] at hexact
    exact (Option.some.inj hexact).symm
  rw [hinteger] at hnearest
  exact ⟨hvalue, hnearest⟩

end RegisterMachine
