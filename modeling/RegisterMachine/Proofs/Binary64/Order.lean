/-
# The order of doubles

Doubles are compared by their places among all doubles (`Binary64.rank?`). For
finite doubles that is the order of their values (`Binary64.le_iff_value_le`), and
a value is compared with an integer by its quanta. Rounding to the nearest
double keeps the order, also where it is past the doubles: the place of the
rounded number is the nearest ordinal, cut off at the place of the infinity
(`Binary64.rank?_nearest`).

Key theorems: `signed_le_signed`, `Binary64.le_iff_value_le`,
`Binary64.intCast_le_value_iff`, `Binary64.rank?_nearest`.
-/
import RegisterMachine.Proofs.Binary64.Closest

namespace RegisterMachine

/-- A monotone function of absolute values that keeps zero keeps the order of numbers. -/
theorem signed_le_signed {f : ℕ → ℕ} (hf : Monotone f) (hzero : f 0 = 0) {s t : Bool} {a b : ℕ}
    (h : signed s a ≤ signed t b) : signed s (f a) ≤ signed t (f b) := by
  have hle : a ≤ b → f a ≤ f b := fun h => hf h
  have hge : b ≤ a → f b ≤ f a := fun h => hf h
  have ha : a = 0 → f a = 0 := fun h => h ▸ hzero
  have hb : b = 0 → f b = 0 := fun h => h ▸ hzero
  cases s <;> cases t <;> simp only [signed_false, signed_true] at h ⊢ <;> omega

namespace Binary64

/-- **The order of finite doubles is the order of their values.** -/
theorem le_iff_value_le {x y : Binary64} (hx : x.isFinite = true) (hy : y.isFinite = true) :
    x.le y = true ↔ x.value ≤ y.value := by
  match x, y, hx, hy with
  | .finite s m, .finite t n, _, _ =>
    have hlt := finiteValue_lt_iff (i := (t, n)) (j := (s, m))
    rw [← not_lt, show (finite t n).value = finiteValue (t, n) from rfl,
      show (finite s m).value = finiteValue (s, m) from rfl, hlt, le, rank?, rank?,
      decide_eq_true_iff, not_lt]

/-! ### Values and integers -/

section Integers

variable {negative : Bool} {m : Magnitude} {k : ℤ}

theorem value_finite (negative : Bool) (m : Magnitude) :
    (finite negative m).value = (signed negative m.quanta : ℚ) / unit := by
  rw [value, quantum, mul_one_div]
  rfl

theorem intCast_le_value_iff :
    (k : ℚ) ≤ (finite negative m).value ↔ k * unit ≤ signed negative m.quanta := by
  rw [value_finite, le_div_iff₀ (Nat.cast_pos.2 unit_pos), ← Int.cast_natCast, ← Int.cast_mul,
    Int.cast_le]

theorem value_le_intCast_iff :
    (finite negative m).value ≤ k ↔ signed negative m.quanta ≤ k * unit := by
  rw [value_finite, div_le_iff₀ (Nat.cast_pos.2 unit_pos), ← Int.cast_natCast, ← Int.cast_mul,
    Int.cast_le]

theorem value_eq_intCast_iff :
    (finite negative m).value = k ↔ signed negative m.quanta = k * unit := by
  rw [le_antisymm_iff, value_le_intCast_iff, intCast_le_value_iff, ← le_antisymm_iff]

/-- A double that is an integer has the magnitude and the sign of the integer. -/
theorem quanta_of_value_eq (h : (finite negative m).value = k) :
    m.quanta = k.natAbs * unit ∧ signed negative k.natAbs = k := by
  rw [value_eq_intCast_iff] at h
  have habs := congrArg Int.natAbs h
  rw [natAbs_signed, Int.natAbs_mul, Int.natAbs_natCast] at habs
  rw [habs, signed_mul] at h
  exact ⟨habs, Int.eq_of_mul_eq_mul_right (Nat.cast_ne_zero.2 unit_pos.ne') h⟩

end Integers

/-! ### Rounding -/

/-- **The place of a rounded number** is the nearest ordinal or the one of the infinity. -/
theorem rank?_nearest (negative : Bool) (n d : ℕ) :
    (nearest negative n d).rank? =
      some (signed negative (min (nearestOrdinal n d) ordinalBound)) := by
  unfold nearest
  split
  · rename_i hlt
    rw [rank?, Nat.min_eq_left (Nat.le_of_lt hlt)]
  · rename_i hge
    rw [rank?, Nat.min_eq_right (Nat.le_of_not_lt hge)]

theorem nearest_not (negative : Bool) (n d : ℕ) :
    nearest (!negative) n d = (nearest negative n d).neg := by
  unfold nearest
  split <;> rfl

theorem numEq_self {x : Binary64} (hx : x.isNaN = false) : x.numEq x = true := by
  match x, hx with
  | .infinite _, _ | .finite _ _, _ => simp [numEq]

end Binary64

end RegisterMachine
