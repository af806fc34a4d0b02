/-
# The factorial

The factorial of a word is computed by a loop over the factors from two up to it,
with an accumulator without bounds (`accumulated`). After every turn the accumulator is
the factorial of the last factor, so nothing is lost on the way, and at the end it is the
factorial itself. That one fits a word up to the factorial of twenty.

Key definitions: `accumulated`.
Key theorems: `accumulated_eq`, `product_eq`, `factorial_lt_iff`, `evaluate_factorial`.
-/
import Mathlib.Data.Nat.Factorial.Basic
import RegisterMachine.Proofs.Rounding

namespace RegisterMachine

/-! ### The loop -/

/-- The accumulator after some turns of the loop. -/
def accumulated (turns : ℕ) : ℕ := (List.range' 2 turns).foldl (· * ·) 1

/-- Of zero and one there are no factors, of any other number there is one less than it. -/
theorem product_eq_accumulated (n : ℕ) : product n = accumulated (n - 1) := rfl

theorem accumulated_succ (turns : ℕ) :
    accumulated (turns + 1) = accumulated turns * (turns + 2) := by
  rw [accumulated, List.range'_1_concat, List.foldl_append, List.foldl_cons, List.foldl_nil,
    Nat.add_comm 2, accumulated]

/-- **After every turn the accumulator is the factorial of the last factor.** -/
theorem accumulated_eq (turns : ℕ) : accumulated turns = (turns + 1).factorial := by
  induction turns with
  | zero => rfl
  | succ turns ih =>
    rw [accumulated_succ, ih, Nat.factorial_succ (turns + 1), Nat.mul_comm]

theorem product_eq (n : ℕ) : product n = n.factorial := by
  rw [product_eq_accumulated, accumulated_eq]
  cases n <;> rfl

/-! ### Words -/

theorem factorial_lt_iff (n : ℕ) : n.factorial < 2 ^ 63 ↔ n ≤ 20 := by
  constructor
  · intro h
    by_contra hlarge
    have hle : Nat.factorial 21 ≤ n.factorial := Nat.factorial_le (by omega)
    have hbound : 2 ^ 63 ≤ Nat.factorial 21 := by decide
    omega
  · intro h
    have hle : n.factorial ≤ Nat.factorial 20 := Nat.factorial_le h
    have hbound : Nat.factorial 20 < 2 ^ 63 := by decide
    omega

/-- An integer that is not negative has one bound to fit a word. -/
theorem Value.ofInt_natural (k : ℕ) :
    if k < 2 ^ 63 then ∃ w : Word, w.val = k ∧ Value.ofInt k = .small w
    else Value.ofInt k = .big k := by
  obtain ⟨n, hn⟩ : ∃ n : ℤ, n = k := ⟨k, rfl⟩
  have hbounds : (-2 ^ 63 ≤ n ∧ n < 2 ^ 63) ↔ k < 2 ^ 63 := by omega
  rw [← hn]
  simpa only [hbounds] using Value.ofInt_word n

/-! ### The operation -/

section Factorial

variable {x : Value}

/-- An integer that fits a word enters the loop. -/
theorem factorial_of_word {w : Word} (hx : x.exactInt? = some w.val) :
    factorial x = .ok (.ofInt (product w.val.toNat)) := by
  simp only [factorial, hx, Word.ofInt?_val]

theorem gives_factorial {n : ℕ} (hx : x.exactInt? = some (n : ℤ)) (hn : n < 2 ^ 63) :
    Operation.factorial.Gives [x] (.ofInt n.factorial) := by
  have hcheck : Operation.factorial.descriptor.domain.check .factorial [x] =
      Domain.require (.notNatural .factorial) (x.exactInt?.any fun n => 0 ≤ n) := rfl
  have hcompute := @factorial_of_word x ⟨n, by omega, by omega⟩ hx
  rw [Int.toNat_natCast, product_eq] at hcompute
  refine Operation.gives_iff_compute.2 ⟨List.mem_cons_self, ?_, hcompute⟩
  rw [hcheck, hx, Option.any_some, decide_eq_true (Int.natCast_nonneg n)]
  rfl

/-- **The factorial of an integer up to the greatest word, in either encoding, is its
factorial,** and it is a word exactly up to the factorial of twenty. In the loop every
factor is a word, and the accumulator, which has no bounds, is the factorial of the last
one. The next integer, if it is a word, has the next factorial. -/
theorem evaluate_factorial {n : ℕ} (hx : x.exactInt? = some (n : ℤ)) (hn : n < 2 ^ 63) :
    Operation.factorial.Gives [x] (.ofInt n.factorial) ∧
    (if n ≤ 20 then ∃ w : Word, w.val = n.factorial ∧ Value.ofInt n.factorial = .small w
      else Value.ofInt n.factorial = .big n.factorial) ∧
    (product n = accumulated (n - 1) ∧ accumulated 0 = 1 ∧
      ∀ turns < n - 1, turns + 2 < 2 ^ 63 ∧
        accumulated (turns + 1) = accumulated turns * (turns + 2) ∧
        accumulated (turns + 1) = (turns + 2).factorial) ∧
    (n + 1 < 2 ^ 63 → ∀ y : Value, y.exactInt? = some (n + 1 : ℤ) →
      ∃ f : ℤ, Operation.factorial.Gives [x] (.ofInt f) ∧
        Operation.factorial.Gives [y] (.ofInt ((n + 1) * f))) := by
  have hgives := gives_factorial hx hn
  have hword := Value.ofInt_natural n.factorial
  simp only [factorial_lt_iff] at hword
  refine ⟨hgives, hword, ⟨product_eq_accumulated n, rfl, fun turns hturns =>
    ⟨by omega, accumulated_succ turns, accumulated_eq (turns + 1)⟩⟩, fun hnext y hy =>
    ⟨n.factorial, hgives, ?_⟩⟩
  have hsucc : ((n + 1).factorial : ℤ) = (n + 1) * n.factorial := by
    rw [Nat.factorial_succ]
    push_cast
    rfl
  rw [← hsucc]
  exact gives_factorial hy hnext

/-- Twenty as an unbounded integer, and the word after it. -/
theorem evaluate_factorial_twenty :
    (∃ w : Word, w.val = Nat.factorial 20 ∧
      evaluate "factorial" [.big 20] 1 = .ok (.small w)) ∧
    ∃ f : ℤ, evaluate "FACTORIAL" [.big 20] 1 = .ok (.ofInt f) ∧
      evaluate "FACTORIAL" [.small ⟨21, by decide, by decide⟩] 1 = .ok (.ofInt (21 * f)) := by
  obtain ⟨hgives, hword, -, hnext⟩ :=
    @evaluate_factorial (.big 20) 20 rfl (by decide)
  obtain ⟨w, hw, heq⟩ := hword
  obtain ⟨f, hf, hf'⟩ := hnext (by decide) (.small ⟨21, by decide, by decide⟩) rfl
  have hname : Operation.factorial.Named "FACTORIAL" 1 := ⟨by decide +kernel, by decide⟩
  refine ⟨⟨w, hw, ?_⟩, f, hf.2 _ 1 hname, hf'.2 _ 1 hname⟩
  rw [← heq]
  exact hgives.2 _ 1 ⟨by decide +kernel, by decide⟩

end Factorial

end RegisterMachine
