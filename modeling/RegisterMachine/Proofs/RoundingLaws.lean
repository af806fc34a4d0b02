/-
# Laws of rounding to places

Rounding to a fixed number of places is a projection: what is rounded is left as
it is, rounding commutes with the sign and it keeps the order. For integers
this is read off the algorithm. For doubles it is an argument about distances,
since they are rounded twice: the double nearest to the nearest multiple is no
further from the multiple than the double that is rounded, so it has the same
nearest multiple (`IsNearestMultiple.of_abs_sub_le`), and the spacing of the
doubles does not come in.

Integers and doubles are rounded in ways of their own, and to a whole number there
is a third one. Where two of them apply to one number they agree.

Key definitions: `Rounds`, `Binary64.roundedOrdinal`.
Key theorems: `roundInteger_roundInteger`, `roundInteger_mono`,
`Binary64.roundPlaces_roundPlaces`, `Binary64.roundPlaces_mono`,
`rounds_projection`, `Binary64.roundPlaces_zero`, `Binary64.roundPlaces_whole`,
`rounding_paths_agree`.
-/
import RegisterMachine.Proofs.NextInteger

namespace RegisterMachine

/-- Rounding `v` to `places` answers `r`, in whatever case the operation is named,
however the places are encoded, and on every line. -/
def Rounds (places : ℤ) (v r : Value) : Prop :=
  ∀ (name : String) (p : Value) (line : ℕ), Operation.round.Named name 2 →
    p.toInteger = .ok places → evaluate name [v, p] line = .ok r

/-- What a number is rounded to is read off one call. -/
theorem Rounds.eq {places : ℤ} {v r r' : Value} (h : Rounds places v r)
    (hvalue : evaluate "ROUND" [v, .ofInt places] 1 = .ok r') : r = r' := by
  have hplaces : (Value.ofInt places).toInteger = .ok places := by
    obtain ⟨w, rfl, hw⟩ | hbig := Value.ofInt_cases places
    · rw [hw]
      rfl
    · rw [hbig]
      rfl
  exact Except.ok.inj ((h "ROUND" _ 1 ⟨by decide +kernel, by decide⟩ hplaces).symm.trans hvalue)

theorem rounds_integer (places : ℤ) {v : Value} {n : ℤ} (hv : v.exactInt? = some n) :
    Rounds places v (.ofInt (roundInteger n (Word.saturate places).val)) :=
  fun _ _ line hname hp => evaluate_round_word hname hp hv line

theorem rounds_float (places : ℤ) (x : Binary64) :
    Rounds places (.float x) (.float (x.roundPlaces places)) :=
  fun _ _ line hname hp => evaluate_round_double hname hp x line

/-! ### Integers -/

section Integers

variable (places : ℤ)

@[simp]
theorem roundMagnitude_zero (shift : ℕ) : roundMagnitude 0 shift false = 0 := by
  simp [roundMagnitude]

theorem roundMagnitude_mul_pow (c : ℕ) {shift : ℕ} (hshift : shift < 2 ^ 32) :
    roundMagnitude (c * 10 ^ shift) shift false = c * 10 ^ shift := by
  have hpos : 0 < 10 ^ shift := Nat.pow_pos (by omega)
  unfold roundMagnitude
  split
  · -- a multiple other than zero has more digits than places
    rename_i hshort
    by_contra hne
    have hc : 0 < c := Nat.pos_of_ne_zero fun hzero => hne (by rw [hzero, Nat.zero_mul])
    have hlong := lt_decimalLength (Nat.le_mul_of_pos_left (10 ^ shift) hc)
    omega
  · dsimp only
    rw [Nat.mod_eq_of_lt hshift, Nat.mul_mod_left, Nat.mul_div_cancel _ hpos, if_neg (by omega)]

/-- **An integer that is rounded is left as it is.** -/
theorem roundInteger_roundInteger {n : ℤ} (hlen : decimalLength n.natAbs < 2 ^ 32) :
    roundInteger (roundInteger n places) places = roundInteger n places := by
  by_cases hlow : places ≤ -2 ^ 32
  · rw [roundInteger_eq_zero hlen places hlow]
    exact roundInteger_eq_zero (by decide) places hlow
  · by_cases hpos : 0 ≤ places
    · rw [roundInteger, if_pos hpos]
    · have hround := @roundInteger_eq n places hlen
      rw [if_neg hpos] at hround
      rw [hround, roundInteger, if_neg hpos, Binary64.natAbs_signed,
        roundMagnitude_mul_pow _ (by omega)]
      conv_rhs => rw [← signed_natAbs (signed _ _), Binary64.natAbs_signed]

theorem roundInteger_neg (n : ℤ) : roundInteger (-n) places = -roundInteger n places := by
  unfold roundInteger
  by_cases hpos : 0 ≤ places
  · rw [if_pos hpos, if_pos hpos]
  · rw [if_neg hpos, if_neg hpos, Int.natAbs_neg]
    rcases lt_trichotomy n 0 with hneg | rfl | hgt
    · have hsign : ¬ -n < 0 := by omega
      simp only [hneg, hsign, decide_true, decide_false, signed_false, signed_true, neg_neg]
    · simp
    · have hsign : -n < 0 := by omega
      have hsign' : ¬ n < 0 := by omega
      simp only [hsign, hsign', decide_true, decide_false, signed_false, signed_true]

/-- **Rounding keeps the order of integers.** -/
theorem roundInteger_mono {n m : ℤ} (hn : decimalLength n.natAbs < 2 ^ 32)
    (hm : decimalLength m.natAbs < 2 ^ 32) (hle : n ≤ m) :
    roundInteger n places ≤ roundInteger m places := by
  rw [roundInteger_eq hn, roundInteger_eq hm]
  by_cases hpos : 0 ≤ places
  · rw [if_pos hpos, if_pos hpos]
    exact hle
  · rw [if_neg hpos, if_neg hpos]
    rw [← signed_natAbs n, ← signed_natAbs m] at hle
    refine signed_le_signed (f := fun a => divNearest a (10 ^ places.natAbs) * 10 ^ places.natAbs)
      ?_ ?_ hle
    · exact fun _ _ h => Nat.mul_le_mul_right _ (divNearest_mono _ h)
    · rw [divNearest_zero, Nat.zero_mul]

end Integers

/-! ### Doubles -/

namespace Binary64

variable (places : ℤ)

/-- **A double that is rounded is left as it is,** an infinity as well. -/
theorem roundPlaces_roundPlaces {x : Binary64} (hx : x.isFinite = true) :
    (x.roundPlaces places).roundPlaces places = x.roundPlaces places := by
  have hround := roundsTo_roundPlaces hx places
  match x, hx with
  | .finite s m, _ =>
    generalize roundPlaces places (.finite s m) = y at hround
    obtain ⟨hsign, multiple, hmultiple, hnearest⟩ := hround
    match y, hnearest with
    | .infinite _, _ => rfl
    | .finite t k, hnearest@(.finite _ hclosest) =>
      -- no double is closer to the multiple, the one that was rounded included
      have hle := hclosest.abs_sub_le (s, m)
      have hself : RoundsTo places (.finite t k) (.finite t k) := by
        refine ⟨rfl, multiple, hmultiple.of_abs_sub_le (step_pos places) ?_, hnearest⟩
        rw [abs_sub_comm, abs_sub_comm _ multiple]
        exact hle
      exact (roundsTo_roundPlaces rfl places).unique hself

theorem roundPlaces_neg (x : Binary64) : x.neg.roundPlaces places = (x.roundPlaces places).neg := by
  match x with
  | .nan | .infinite _ => rfl
  | .finite s m => rw [neg, roundPlaces_eq_nearest, roundPlaces_eq_nearest, nearest_not]

/-- The place that a double is rounded to, from its own place, without the signs. -/
def roundedOrdinal (places : ℤ) (k : ℕ) : ℕ :=
  min (nearestOrdinal (divNearest (ordinalQuanta k * 10 ^ places.toNat)
    (unit * 10 ^ (-places).toNat) * 10 ^ (-places).toNat * unit) (10 ^ places.toNat)) ordinalBound

theorem roundedOrdinal_zero : roundedOrdinal places 0 = 0 := by simp [roundedOrdinal]

theorem monotone_roundedOrdinal : Monotone (roundedOrdinal places) := by
  intro a b h
  have hpow : 0 < 10 ^ places.toNat := Nat.pow_pos (by omega)
  unfold roundedOrdinal
  refine min_le_min_right _ (nearestOrdinal_mono hpow hpow ?_)
  gcongr
  apply divNearest_mono
  exact Nat.mul_le_mul_right _ (ordinalQuanta_strictMono.monotone h)

theorem rank?_roundPlaces (negative : Bool) (m : Magnitude) :
    ((finite negative m).roundPlaces places).rank? =
      some (signed negative (roundedOrdinal places m.ordinal)) := by
  rw [roundPlaces_eq_nearest, rank?_nearest]
  rfl

/-- **Rounding keeps the order of doubles.** -/
theorem roundPlaces_mono {x y : Binary64} (hx : x.isFinite = true) (hy : y.isFinite = true)
    (hle : x.le y = true) : (x.roundPlaces places).le (y.roundPlaces places) = true := by
  match x, y, hx, hy with
  | .finite s m, .finite t n, _, _ =>
    rw [le, rank?, rank?, decide_eq_true_iff] at hle
    rw [le, rank?_roundPlaces, rank?_roundPlaces, decide_eq_true_iff]
    exact signed_le_signed (monotone_roundedOrdinal places) (roundedOrdinal_zero places) hle

end Binary64

/-! ### Both -/

/-- **Rounding to places is a projection.** An integer of fewer than `2 ^ 32` digits,
in either encoding, and a finite double are rounded to a number that is rounded to
itself, in variant and bits, also if it is an infinity; the opposite number is
rounded to the opposite one, a zero included, and a greater number of the same kind
to no smaller one. -/
theorem rounds_projection (places : ℤ) :
    (∀ (v : Value) (n : ℤ), v.exactInt? = some n → decimalLength n.natAbs < 2 ^ 32 →
      ∃ k : ℤ, Rounds places v (.ofInt k) ∧ Rounds places (.ofInt k) (.ofInt k) ∧
        (∀ w : Value, w.exactInt? = some (-n) → Rounds places w (.ofInt (-k))) ∧
        ∀ (w : Value) (m : ℤ), w.exactInt? = some m → decimalLength m.natAbs < 2 ^ 32 → n ≤ m →
          ∃ l : ℤ, Rounds places w (.ofInt l) ∧ k ≤ l) ∧
    ∀ x : Binary64, x.isFinite = true →
      ∃ y : Binary64, Rounds places (.float x) (.float y) ∧ Rounds places (.float y) (.float y) ∧
        Rounds places (.float x.neg) (.float y.neg) ∧
        ∀ x' : Binary64, x'.isFinite = true → x.le x' = true →
          ∃ y' : Binary64, Rounds places (.float x') (.float y') ∧ y.le y' = true := by
  constructor
  · intro v n hv hlen
    refine ⟨_, rounds_integer places hv, ?_, fun w hw => ?_, fun w m hw hm hle => ?_⟩
    · have hself := rounds_integer places
        (Value.exactInt?_ofInt (roundInteger n (Word.saturate places).val))
      rwa [roundInteger_roundInteger _ hlen] at hself
    · rw [← roundInteger_neg]
      exact rounds_integer places hw
    · exact ⟨_, rounds_integer places hw, roundInteger_mono _ hlen hm hle⟩
  · intro x hx
    refine ⟨_, rounds_float places x, ?_, ?_, fun x' hx' hle => ?_⟩
    · have hself := rounds_float places (x.roundPlaces places)
      rwa [Binary64.roundPlaces_roundPlaces places hx] at hself
    · rw [← Binary64.roundPlaces_neg]
      exact rounds_float places x.neg
    · exact ⟨_, rounds_float places x', Binary64.roundPlaces_mono places hx hx' hle⟩

/-- The greatest double is rounded past the doubles, and a half of ten to the even ten. -/
theorem rounds_projection_greatest :
    (Rounds (-308) (.float (.finite false .greatest)) (.float (.infinite false)) ∧
      Rounds (-308) (.float (.infinite false)) (.float (.infinite false)) ∧
      Rounds (-308) (.float (.finite true .greatest)) (.float (.infinite true))) ∧
    Rounds (-1) (.ofInt 25) (.ofInt 20) ∧ Rounds (-1) (.ofInt 20) (.ofInt 20) ∧
      Rounds (-1) (.big (-25)) (.ofInt (-20)) ∧
      ∃ l : ℤ, Rounds (-1) (.ofInt 26) (.ofInt l) ∧ 20 ≤ l := by
  constructor
  · obtain ⟨y, hround, hself, hneg, -⟩ := (rounds_projection (-308)).2 (.finite false .greatest) rfl
    have hinf : y = .infinite false := Value.float.inj (hround.eq (by decide +kernel))
    rw [hinf] at hround hself hneg
    exact ⟨hround, hself, hneg⟩
  · obtain ⟨k, hround, hself, hneg, hmono⟩ :=
      (rounds_projection (-1)).1 (.ofInt 25) 25 (by decide) (by decide)
    have hk : k = 20 := Value.ofInt_injective (hround.eq (by decide +kernel))
    rw [hk] at hround hself hneg hmono
    exact ⟨hround, hself, hneg (.big (-25)) rfl,
      hmono (.ofInt 26) 26 (by decide) (by decide) (by decide)⟩

/-! ### Different ways of rounding -/

namespace Binary64

theorem roundPlaces_zero {x : Binary64} (hx : x.isFinite = true) :
    x.roundPlaces 0 = x.roundEven := by
  match x, hx with
  | .finite negative m, _ =>
    rw [roundPlaces_eq_nearest, roundEven, toWhole, wholeNearest, Magnitude.multiple]
    simp

/-- Before the point a double without a fraction is rounded as its integer is. -/
theorem roundPlaces_whole (negative : Bool) {m : Magnitude} {k : ℕ} (hk : m.quanta = k * unit)
    {places : ℤ} (hplaces : places < 0) :
    (finite negative m).roundPlaces places =
      nearest negative (divNearest k (10 ^ places.natAbs) * 10 ^ places.natAbs * unit) 1 := by
  have htens : places.toNat = 0 := by omega
  have hneg : (-places).toNat = places.natAbs := by omega
  rw [roundPlaces_eq_nearest, Magnitude.multiple, htens, hneg, Nat.pow_zero, Nat.mul_one, hk,
    Nat.mul_comm k, divNearest_mul_mul_left unit_pos]

theorem decimalLength_lt_of_quanta {m : Magnitude} {k : ℕ} (hk : m.quanta = k * unit) :
    decimalLength k < 2 ^ 32 := by
  have hwhole := m.decimalLength_whole
  rw [hk, Nat.mul_div_cancel _ unit_pos] at hwhole
  omega

theorem eq_infinite_of_nearest {negative : Bool} {n d : ℕ}
    (h : (nearest negative n d).isFinite = false) : nearest negative n d = .infinite negative := by
  unfold nearest at h ⊢
  split at h
  · exact absurd h Bool.noConfusion
  · rename_i hge
    rw [dif_neg hge]

theorem nearest_eq_ofInt (negative : Bool) {c : ℕ} (hc : c ≠ 0) :
    nearest negative (c * unit) 1 = ofInt (signed negative c) := by
  rw [ofInt, natAbs_signed, decide_signed_lt_zero negative hc]

end Binary64

theorem Value.toBinary64_ofInt (n : ℤ) :
    (Value.ofInt n).toBinary64 =
      if (Binary64.ofInt n).isFinite then .ok (.ofInt n) else .error .tooLarge :=
  Value.toBinary64_fold (.big n)

/-- The double of a whole number with the sign of an integer, and the double of the
whole number with this sign: they differ in the sign of a zero at most. -/
theorem Binary64.numEq_or_infinite {negative : Bool} {n : ℤ} {c : ℕ}
    (hn : signed negative n.natAbs = n) (hzero : n.natAbs = 0 → c = 0) :
    (∃ z, (Value.ofInt (signed (decide (n < 0)) c)).toBinary64 = .ok z ∧
      (nearest negative (c * unit) 1).numEq z = true) ∨
    (Value.ofInt (signed (decide (n < 0)) c)).toBinary64 = .error .tooLarge ∧
      nearest negative (c * unit) 1 = .infinite negative := by
  have hconvert := Value.toBinary64_ofInt (signed (decide (n < 0)) c)
  by_cases hc : c = 0
  · have hinteger : ofInt (signed (decide (n < 0)) c) = .zero := by
      rw [hc]
      cases decide (n < 0) <;> exact ofInt_zero
    rw [hinteger, if_pos (by decide)] at hconvert
    refine .inl ⟨_, hconvert, ?_⟩
    rw [hc, Nat.zero_mul, nearest_zero]
    cases negative <;> decide
  · have hsign : decide (n < 0) = negative := by
      rw [← hn]
      exact decide_signed_lt_zero negative fun h => hc (hzero h)
    rw [hsign, ← nearest_eq_ofInt negative hc] at hconvert
    rw [hsign]
    by_cases hfinite : (nearest negative (c * unit) 1).isFinite = true
    · rw [if_pos hfinite] at hconvert
      exact .inl ⟨_, hconvert, numEq_self (isNaN_nearest _ _ _)⟩
    · rw [if_neg hfinite] at hconvert
      exact .inr ⟨hconvert, eq_infinite_of_nearest (Bool.not_eq_true _ ▸ hfinite)⟩

/-- **The ways of rounding agree.** The integer that a finite double is rounded to is the
value of the double that it is rounded to with no places; and rounded to tens,
hundreds and so on, a double that is an integer gives the double of what the integer,
in either encoding, gives, or the infinity of its sign where that is refused as too
large. -/
theorem rounding_paths_agree :
    (∀ x : Binary64, x.isFinite = true →
      ∃ (n : ℤ) (y : Binary64),
        (∀ name line, Operation.round.Named name 1 →
          evaluate name [.float x] line = .ok (.ofInt n)) ∧
        Rounds 0 (.float x) (.float y) ∧ y.isFinite = true ∧ y.value = n) ∧
    ∀ (x : Binary64) (n places : ℤ), x.isFinite = true → x.value = n → places < 0 →
      ∃ (k : ℤ) (y : Binary64),
        (∀ v : Value, v.exactInt? = some n → Rounds places v (.ofInt k)) ∧
        Rounds places (.float x) (.float y) ∧
        match (Value.ofInt k).toBinary64 with
        | .ok z => y.numEq z = true
        | .error cause => cause = .tooLarge ∧ y = .infinite x.isNegative := by
  constructor
  · intro x hx
    match x, hx with
    | .finite negative m, _ =>
      obtain ⟨m', hround, hm'⟩ :=
        Binary64.exists_toWhole_eq Binary64.isNext_wholeNearest negative m
      refine ⟨_, _, fun name line hname => evaluate_roundEven_double negative m line hname,
        rounds_float 0 _, ?_, ?_⟩
      · rw [Binary64.roundPlaces_zero rfl, Binary64.roundEven, hround]
        rfl
      · rw [Binary64.roundPlaces_zero rfl, Binary64.roundEven, hround,
          Binary64.value_eq_intCast_iff, hm', signed_mul]
  · intro x n places hx hvalue hplaces
    cases x with
    | nan | infinite _ => cases hx
    | finite negative m =>
      obtain ⟨hquanta, hn⟩ := Binary64.quanta_of_value_eq hvalue
      have hlen := Binary64.decimalLength_lt_of_quanta hquanta
      have hfloat := Binary64.roundPlaces_whole negative hquanta hplaces
      have hinteger := @roundInteger_eq n places hlen
      rw [if_neg (by omega)] at hinteger
      refine ⟨roundInteger n places, _, fun v hv => ?_, rounds_float places _, ?_⟩
      · have hround := rounds_integer places hv
        rwa [roundInteger_saturate hlen] at hround
      · have hzero : n.natAbs = 0 →
            divNearest n.natAbs (10 ^ places.natAbs) * 10 ^ places.natAbs = 0 := by
          intro h
          rw [h, divNearest_zero, Nat.zero_mul]
        rw [hfloat, hinteger]
        generalize divNearest n.natAbs (10 ^ places.natAbs) * 10 ^ places.natAbs = c at hzero
        obtain ⟨z, hz, heq⟩ | ⟨hz, hinf⟩ := Binary64.numEq_or_infinite hn hzero
        · simp only [hz]
          exact heq
        · simp only [hz]
          exact ⟨trivial, hinf⟩

/-- Two and a half is two, and the greatest double, rounded to two times `10 ^ 308`, is past
the doubles either way. -/
theorem rounding_paths_agree_greatest :
    (∃ y : Binary64,
      evaluate "ROUND" [.float (.nearest false (5 * Binary64.unit) 2)] 1 = .ok (.ofInt 2) ∧
      Rounds 0 (.float (.nearest false (5 * Binary64.unit) 2)) (.float y) ∧ y.value = (2 : ℤ)) ∧
    Rounds (-308) (.big ((2 ^ 53 - 1) * 2 ^ 971)) (.ofInt (2 * 10 ^ 308)) ∧
      Rounds (-308) (.float (.finite false .greatest)) (.float (.infinite false)) ∧
      (Value.ofInt (2 * 10 ^ 308)).toBinary64 = .error .tooLarge := by
  constructor
  · obtain ⟨n, y, hinteger, hround, -, hvalue⟩ :=
      rounding_paths_agree.1 (.nearest false (5 * Binary64.unit) 2) (by decide +kernel)
    have htwo := hinteger "ROUND" 1 ⟨by decide +kernel, by decide⟩
    have hn : n = 2 := by
      have hcall : evaluate "ROUND" [.float (.nearest false (5 * Binary64.unit) 2)] 1 =
          .ok (.ofInt 2) := by decide +kernel
      exact Value.ofInt_injective (Except.ok.inj (htwo.symm.trans hcall))
    rw [hn] at htwo hvalue
    exact ⟨y, htwo, hround, hvalue⟩
  · obtain ⟨k, y, hinteger, hfloat, hagree⟩ :=
      rounding_paths_agree.2 (.finite false .greatest) ((2 ^ 53 - 1) * 2 ^ 971) (-308) rfl
        (Binary64.value_eq_intCast_iff.2 (by decide +kernel)) (by decide)
    have hround := hinteger (.big ((2 ^ 53 - 1) * 2 ^ 971)) rfl
    have hk : k = 2 * 10 ^ 308 := Value.ofInt_injective (hround.eq (by decide +kernel))
    have hlarge : (Value.ofInt (2 * 10 ^ 308)).toBinary64 = .error .tooLarge := by decide +kernel
    simp only [hk, hlarge] at hagree
    rw [hk] at hround
    rw [hagree.2] at hfloat
    exact ⟨hround, hfloat, hlarge⟩

end RegisterMachine
