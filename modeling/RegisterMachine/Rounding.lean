/-
# Division to the nearest integer

Every rounded number of this library (a double, a decimal cut to some places,
an integer cut to tens or hundreds) is a quotient of two natural numbers
rounded to the nearest integer, and a tie goes to the even one. `divNearest`
is that quotient; nothing else in the library decides a tie between integers.

The steps that numbers are rounded to are powers of two and ten. A power means
the same in every module (`corePow`), whatever else a module imports.

Key definitions: `divNearest`, `corePow`.
Key theorems: `divNearest_le`, `le_divNearest`, `divNearest_mul_left`,
`divNearest_mono`.
-/

namespace RegisterMachine

/-- The power of the core library, in preference to other instances. -/
@[default_instance 20000]
instance (priority := 2000) corePow {α : Type} [NatPow α] : Pow α Nat := instPowNat

/-- The integer nearest to `n / d`, the even one of two that are equally near. -/
def divNearest (n d : Nat) : Nat :=
  if d < 2 * (n % d) ∨ (2 * (n % d) = d ∧ n / d % 2 = 1) then n / d + 1 else n / d

theorem div_le_divNearest (n d : Nat) : n / d ≤ divNearest n d := by
  unfold divNearest; split <;> omega

theorem divNearest_le_div_add_one (n d : Nat) : divNearest n d ≤ n / d + 1 := by
  unfold divNearest; split <;> omega

/-- The nearest integer is at most half a unit above the quotient. -/
theorem divNearest_le (n d : Nat) :
    2 * (divNearest n d * d) ≤ 2 * n + d := by
  have hdiv := Nat.div_add_mod n d
  have hcomm : n / d * d = d * (n / d) := Nat.mul_comm _ _
  unfold divNearest
  split
  · rw [Nat.add_mul]; omega
  · omega

theorem le_divNearest (n : Nat) {d : Nat} (hd : 0 < d) :
    2 * n ≤ 2 * (divNearest n d * d) + d := by
  have hdiv := Nat.div_add_mod n d
  have hmod := Nat.mod_lt n hd
  have hcomm : n / d * d = d * (n / d) := Nat.mul_comm _ _
  unfold divNearest
  split
  · rw [Nat.add_mul]; omega
  · omega

theorem divNearest_mul_left (q : Nat) {d : Nat} (hd : 0 < d) : divNearest (d * q) d = q := by
  unfold divNearest
  rw [Nat.mul_mod_right, Nat.mul_div_cancel_left q hd]
  split <;> omega

theorem divNearest_mul_mul_left {c : Nat} (hc : 0 < c) (n d : Nat) :
    divNearest (c * n) (c * d) = divNearest n d := by
  unfold divNearest
  rw [Nat.mul_div_mul_left _ _ hc, Nat.mul_mod_mul_left, Nat.mul_left_comm 2 c]
  simp only [Nat.mul_lt_mul_left hc, Nat.mul_right_inj (Nat.ne_of_gt hc)]

theorem divNearest_mono {n n' : Nat} (d : Nat) (hle : n ≤ n') :
    divNearest n d ≤ divNearest n' d := by
  have hdiv : n / d ≤ n' / d := Nat.div_le_div_right hle
  have hn := Nat.div_add_mod n d
  have hn' := Nat.div_add_mod n' d
  by_cases heq : n / d = n' / d
  · -- the same whole part, so the rest decides
    rw [heq] at hn
    unfold divNearest
    rw [heq]
    split <;> split <;> omega
  · have hlow := div_le_divNearest n' d
    have hhigh := divNearest_le_div_add_one n d
    omega

@[simp]
theorem divNearest_one (n : Nat) : divNearest n 1 = n := by
  simpa using divNearest_mul_left n (d := 1) (by omega)

@[simp]
theorem divNearest_zero (d : Nat) : divNearest 0 d = 0 := by
  simp [divNearest]

end RegisterMachine
