/-
# Divisors and multiples

The greatest common divisor is found by Euclid's loop, which is followed here turn by
turn (`EuclidTurns`). Two turns make the second number less than half of what it
was, so the loop is left after at most two turns for each of its bits
(`exists_euclidTurns`), with the greatest common divisor, since every turn keeps
it. It is no zero where the least common multiple divides by it, and the division
leaves nothing. An operand counts for the integer that it denotes, also if it is
a double.

Key definitions: `EuclidTurns`, `Value.Denotes`.
Key theorems: `exists_euclidTurns`, `Value.toInteger_eq_ok_iff`, `evaluate_gcd_lcm`.
-/
import Mathlib.Data.Nat.Size
import RegisterMachine.Proofs.Binary64.Order
import RegisterMachine.Proofs.Rounding

namespace RegisterMachine

/-! ### Euclid's loop -/

/-- From two numbers Euclid's loop is left after so many turns with the last number. -/
inductive EuclidTurns : ℕ → ℤ → ℤ → ℤ → Prop
  | done (d : ℤ) : EuclidTurns 0 d 0 d
  | turn {turns : ℕ} {a b d : ℤ} (hb : b ≠ 0) (rest : EuclidTurns turns b (a.tmod b) d) :
      EuclidTurns (turns + 1) a b d

section Euclid

variable {a b : ℤ}

/-- **Two turns more than halve the second number.** -/
theorem two_mul_natAbs_tmod_lt (hb : b ≠ 0) (hr : a.tmod b ≠ 0) :
    2 * (b.tmod (a.tmod b)).natAbs < b.natAbs := by
  have hlt : (a.tmod b).natAbs < b.natAbs := by
    rw [Int.natAbs_tmod]
    exact Nat.mod_lt _ (Int.natAbs_pos.2 hb)
  have hmod := Nat.mod_lt b.natAbs (Int.natAbs_pos.2 hr)
  have hdiv := Nat.div_add_mod b.natAbs (a.tmod b).natAbs
  have hquotient : (a.tmod b).natAbs ≤ (a.tmod b).natAbs * (b.natAbs / (a.tmod b).natAbs) :=
    Nat.le_mul_of_pos_right _ (Nat.div_pos (Nat.le_of_lt hlt) (Int.natAbs_pos.2 hr))
  rw [Int.natAbs_tmod b]
  omega

theorem size_lt_size_of_two_mul_lt {m n : ℕ} (h : 2 * m < n) : m.size < n.size := by
  have hn : n < 2 ^ n.size := Nat.size_le.1 le_rfl
  have hpos : 0 < n.size := Nat.size_pos.2 (by omega)
  have hpow : 2 ^ n.size = 2 * 2 ^ (n.size - 1) := by
    rw [← Nat.pow_succ', Nat.succ_eq_add_one, Nat.sub_add_cancel hpos]
  have hle : m.size ≤ n.size - 1 := Nat.size_le.2 (by omega)
  omega

/-- **Euclid's loop ends,** after at most two turns for each bit of the second number. -/
theorem exists_euclidTurns (a b : ℤ) :
    ∃ turns ≤ 2 * b.natAbs.size, EuclidTurns turns a b (euclid a b) := by
  induction hn : b.natAbs using Nat.strong_induction_on generalizing a b with
  | h n ih =>
    by_cases hb : b = 0
    · rw [hb, euclid, if_pos rfl]
      exact ⟨0, Nat.zero_le _, .done a⟩
    · by_cases hr : a.tmod b = 0
      · have hpos : 0 < n.size := Nat.size_pos.2 (hn ▸ Int.natAbs_pos.2 hb)
        rw [euclid, if_neg hb, hr, euclid, if_pos rfl]
        refine ⟨1, by omega, .turn hb ?_⟩
        rw [hr]
        exact .done b
      · -- two turns, which the hypothesis is for
        have hhalf := two_mul_natAbs_tmod_lt hb hr
        obtain ⟨turns, hle, hturns⟩ := ih _ (by omega) (a.tmod b) (b.tmod (a.tmod b)) rfl
        have hsize := size_lt_size_of_two_mul_lt (hn ▸ hhalf)
        rw [euclid, if_neg hb, euclid, if_neg hr]
        exact ⟨turns + 2, by omega, .turn hb (.turn hr hturns)⟩

theorem gcd_dvd_natAbs_mul (a b : ℤ) : a.gcd b ∣ (a * b).natAbs := by
  rw [Int.natAbs_mul]
  exact (Int.gcd_dvd_natAbs_left a b).mul_right _

theorem tdiv_gcd (a b : ℤ) : ((a * b).natAbs : ℤ).tdiv (a.gcd b) = a.lcm b := by
  rw [← Int.ofNat_tdiv, Int.natAbs_mul]
  rfl

/-- Neither the signs count nor the order. -/
theorem gcd_lcm_eq_of_abs_eq {a' b' : ℤ}
    (h : |a'| = |a| ∧ |b'| = |b| ∨ |a'| = |b| ∧ |b'| = |a|) :
    a'.gcd b' = a.gcd b ∧ a'.lcm b' = a.lcm b := by
  simp only [Int.abs_eq_natAbs, Nat.cast_inj] at h
  simp only [Int.gcd, Int.lcm]
  obtain ⟨ha, hb⟩ | ⟨ha, hb⟩ := h
  · rw [ha, hb]
    exact ⟨rfl, rfl⟩
  · rw [ha, hb]
    exact ⟨Nat.gcd_comm _ _, Nat.lcm_comm _ _⟩

end Euclid

/-! ### The operands -/

namespace Value

/-- The integer that a value is, in either encoding or as a double. -/
def Denotes (v : Value) (n : ℤ) : Prop :=
  v.exactInt? = some n ∨ ∃ x : Binary64, v = .float x ∧ x.isFinite = true ∧ x.value = n

end Value

theorem Binary64.toInt?_eq_some_iff {x : Binary64} {n : ℤ} :
    x.toInt? = some n ↔ x.isFinite = true ∧ x.value = n := by
  match x with
  | .nan => simp [toInt?, isFinite]
  | .infinite _ => simp [toInt?, isFinite]
  | .finite negative m =>
    rw [toInt?]
    constructor
    · intro h
      split at h
      · rename_i hdvd
        refine ⟨rfl, value_eq_intCast_iff.2 ?_⟩
        rw [← Option.some.inj h, ← signed_mul, Nat.div_mul_cancel (Nat.dvd_of_mod_eq_zero hdvd)]
      · exact absurd h (by simp)
    · rintro ⟨-, h⟩
      obtain ⟨hquanta, hn⟩ := quanta_of_value_eq h
      rw [hquanta, if_pos (Nat.mul_mod_left _ _), Nat.mul_div_cancel _ unit_pos, hn]

/-- **Exactly the values that denote an integer are taken to one,** and to this one. -/
theorem Value.toInteger_eq_ok_iff {v : Value} {n : ℤ} : v.toInteger = .ok n ↔ v.Denotes n := by
  cases v with
  | small w => simp [toInteger, Denotes, exactInt?]
  | big k => simp [toInteger, Denotes, exactInt?]
  | complex z => simp [toInteger, Denotes, exactInt?]
  | float x =>
    have hfloat : (Value.float x).Denotes n ↔ x.toInt? = some n := by
      rw [Binary64.toInt?_eq_some_iff]
      simp [Denotes, exactInt?]
    rw [hfloat, toInteger]
    cases x.toInt? <;> simp

/-! ### The operations -/

section Operations

variable {name : String} {x y : Value} {a b : ℤ}

theorem evaluate_integers {op : Operation} (hname : op.Named name 2)
    (hdomain : op.descriptor.domain = .integers) (hx : x.toInteger = .ok a)
    (hy : y.toInteger = .ok b) (line : ℕ) :
    evaluate name [x, y] line = (op.compute [x, y]).mapError fun cause =>
      (cause.failure.inOperation op.name).atLine line := by
  refine evaluate_of_admitted line hname ?_
  rw [hdomain]
  simp [Domain.check, Domain.require, Value.isIntegral, hx, hy, Except.toBool]

theorem evaluate_gcd (hname : Operation.gcd.Named name 2) (hx : x.toInteger = .ok a)
    (hy : y.toInteger = .ok b) (line : ℕ) :
    evaluate name [x, y] line = .ok (.ofInt (a.gcd b)) := by
  have hcompute : greatestCommonDivisor x y = .ok (.ofInt (a.gcd b)) := by
    rw [greatestCommonDivisor, hx, hy, ← euclid_natAbs]
    rfl
  rw [evaluate_integers hname rfl hx hy, Operation.compute, hcompute]
  rfl

/-- The divisor of the least common multiple is no zero, and no rest is left. -/
theorem evaluate_lcm (hname : Operation.lcm.Named name 2) (hx : x.toInteger = .ok a)
    (hy : y.toInteger = .ok b) (line : ℕ) :
    evaluate name [x, y] line = .ok (.ofInt (a.lcm b)) := by
  have hcompute : leastCommonMultiple x y = .ok (.ofInt (a.lcm b)) := by
    rw [leastCommonMultiple, hx, hy]
    show (if a = 0 ∨ b = 0 then _ else if euclid a.natAbs b.natAbs = 0 then _ else _) = _
    by_cases hzero : a = 0 ∨ b = 0
    · rw [if_pos hzero, Int.lcm_eq_zero_iff.2 hzero]
      rfl
    · have hgcd : (a.gcd b : ℤ) ≠ 0 := by
        rw [Nat.cast_ne_zero, Ne, Int.gcd_eq_zero_iff]
        exact fun h => hzero (.inl h.1)
      rw [if_neg hzero, euclid_natAbs, if_neg hgcd, tdiv_gcd]
  rw [evaluate_integers hname rfl hx hy, Operation.compute, hcompute]
  rfl

end Operations

/-- **Greatest common divisors and least common multiples are exact.** For all operands
that denote integers, as words, as integers of any size or as doubles, Euclid's
loop on the absolute values ends and leaves the greatest common divisor; the two
answers are the divisor and the multiple, words exactly if they fit. Where there
is a division, it is not by zero and leaves nothing; the product of the answers is
the absolute value of the product. Operands that denote integers of the same
absolute values, in either order, have the same answers. -/
theorem evaluate_gcd_lcm {gcdName lcmName : String} (hgcd : Operation.gcd.Named gcdName 2)
    (hlcm : Operation.lcm.Named lcmName 2) {x y : Value} {a b : ℤ} (hx : x.Denotes a)
    (hy : y.Denotes b) (line : ℕ) :
    (∃ turns ≤ 2 * b.natAbs.size, EuclidTurns turns |a| |b| (a.gcd b)) ∧
    evaluate gcdName [x, y] line = .ok (.ofInt (a.gcd b)) ∧
    evaluate lcmName [x, y] line = .ok (.ofInt (a.lcm b)) ∧
    (∀ k ∈ [(a.gcd b : ℤ), (a.lcm b : ℤ)],
      if -2 ^ 63 ≤ k ∧ k < 2 ^ 63 then ∃ w : Word, w.val = k ∧ Value.ofInt k = .small w
      else Value.ofInt k = .big k) ∧
    (a.gcd b = 0 ↔ a = 0 ∧ b = 0) ∧ (a.lcm b = 0 ↔ a = 0 ∨ b = 0) ∧
    (a ≠ 0 → b ≠ 0 → euclid |a| |b| ≠ 0 ∧ euclid |a| |b| ∣ |a * b|) ∧
    (a.gcd b * a.lcm b : ℤ) = |a * b| ∧
    ∀ (x' y' : Value) (a' b' : ℤ) (line' : ℕ), x'.Denotes a' → y'.Denotes b' →
      |a'| = |a| ∧ |b'| = |b| ∨ |a'| = |b| ∧ |b'| = |a| →
      evaluate gcdName [x', y'] line' = evaluate gcdName [x, y] line ∧
      evaluate lcmName [x', y'] line' = evaluate lcmName [x, y] line := by
  have hgcdEq := evaluate_gcd hgcd (Value.toInteger_eq_ok_iff.2 hx) (Value.toInteger_eq_ok_iff.2 hy)
  have hlcmEq := evaluate_lcm hlcm (Value.toInteger_eq_ok_iff.2 hx) (Value.toInteger_eq_ok_iff.2 hy)
  have heuclid : euclid |a| |b| = a.gcd b := by
    rw [Int.abs_eq_natAbs, Int.abs_eq_natAbs, euclid_natAbs]
  refine ⟨?_, hgcdEq line, hlcmEq line, fun k _ => Value.ofInt_word k, Int.gcd_eq_zero_iff,
    Int.lcm_eq_zero_iff, fun ha _ => ?_, ?_, fun x' y' a' b' line' hx' hy' hsame => ?_⟩
  · obtain ⟨turns, hle, hturns⟩ := exists_euclidTurns |a| |b|
    rw [heuclid] at hturns
    rw [Int.natAbs_abs] at hle
    exact ⟨turns, hle, hturns⟩
  · rw [heuclid, Int.abs_eq_natAbs, Int.natCast_dvd_natCast, Nat.cast_ne_zero, Ne,
      Int.gcd_eq_zero_iff]
    exact ⟨fun h => ha h.1, gcd_dvd_natAbs_mul a b⟩
  · rw [← Nat.cast_mul, Int.gcd_mul_lcm, ← Int.natAbs_mul, Int.abs_eq_natAbs]
  · have hgcdEq' := evaluate_gcd hgcd (Value.toInteger_eq_ok_iff.2 hx')
      (Value.toInteger_eq_ok_iff.2 hy') line'
    have hlcmEq' := evaluate_lcm hlcm (Value.toInteger_eq_ok_iff.2 hx')
      (Value.toInteger_eq_ok_iff.2 hy') line'
    have hequal := gcd_lcm_eq_of_abs_eq hsame
    rw [hgcdEq', hlcmEq', hgcdEq, hlcmEq, hequal.1, hequal.2]
    exact ⟨rfl, rfl⟩

/-- A double and a negative integer, both past the words, and the same with the order and
the signs changed. -/
theorem evaluate_gcd_lcm_past_words :
    evaluate "GCD" [.float (.ofInt (2 ^ 70)), .big (-(3 * 2 ^ 64))] 1 = .ok (.big (2 ^ 64)) ∧
      evaluate "LCM" [.float (.ofInt (2 ^ 70)), .big (-(3 * 2 ^ 64))] 1 =
        .ok (.big (3 * 2 ^ 70)) ∧
      evaluate "GCD" [.big (3 * 2 ^ 64), .big (-2 ^ 70)] 2 = .ok (.big (2 ^ 64)) ∧
      ∃ turns ≤ 2 * 66, EuclidTurns turns |2 ^ 70| |-(3 * 2 ^ 64)| (2 ^ 64) := by
  have hdouble : (Value.float (.ofInt (2 ^ 70))).Denotes (2 ^ 70) :=
    Value.toInteger_eq_ok_iff.1 (by decide +kernel)
  have hbig : (Value.big (-(3 * 2 ^ 64))).Denotes (-(3 * 2 ^ 64)) := .inl rfl
  have hgcd : (2 ^ 70 : ℤ).gcd (-(3 * 2 ^ 64)) = 2 ^ 64 := by decide +kernel
  have hlcm : (2 ^ 70 : ℤ).lcm (-(3 * 2 ^ 64)) = 3 * 2 ^ 70 := by decide +kernel
  obtain ⟨⟨turns, hle, hturns⟩, hg, hl, -, -, -, -, -, hsame⟩ :=
    @evaluate_gcd_lcm "GCD" "LCM" ⟨by decide +kernel, by decide⟩ ⟨by decide +kernel, by decide⟩
      _ _ _ _ hdouble hbig 1
  have hswap := hsame (.big (3 * 2 ^ 64)) (.big (-2 ^ 70)) (3 * 2 ^ 64) (-2 ^ 70) 2 (.inl rfl)
    (.inl rfl) (.inr ⟨(abs_neg _).symm, abs_neg _⟩)
  rw [hgcd] at hg hturns
  rw [hlcm] at hl
  rw [hg] at hswap
  have hsize : (-(3 * 2 ^ 64) : ℤ).natAbs.size = 66 := by decide +kernel
  rw [hsize] at hle
  exact ⟨hg, hl, hswap.1, turns, hle, hturns⟩

end RegisterMachine
