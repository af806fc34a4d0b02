/-
# What a state holds

A state holds the values in its registers and immutables and on its stacks,
selected or not. What it holds after a declaration or a write is what it held
before and the value. A word stands for a value that the state holds, or is a
literal.

Key definitions: `State.Holds`, `State.Every`, `State.Reads`.
Key theorems: `State.holds_or_literal_of_resolve`, `Written.holds`,
`Written.every`, `Written.holds_value`.
-/
import RegisterMachine.Proofs.Execution

namespace RegisterMachine

namespace State

/-- The value is in a register, on a stack or an immutable. -/
inductive Holds (s : State) : Value → Prop
  | register {name : String} {v : Value} (h : s.registers.get? name = some v) : Holds s v
  | stack {name : String} {vs : List Value} {v : Value} (h : s.stacks.get? name = some vs)
      (hv : v ∈ vs) : Holds s v
  | immutable {name : String} {v : Value} (h : s.immutables.get? name = some v) : Holds s v

/-- All values that the state holds have the property. -/
def Every (p : Value → Prop) (s : State) : Prop := ∀ v, s.Holds v → p v

/-- The state holds the value or has it for a word. -/
def Reads (s : State) (v : Value) : Prop := s.Holds v ∨ ∃ token, s.resolve token = .ok v

variable {s : State} {v w : Value} {name token : String}

theorem not_holds_initial : ¬ initial.Holds v := by
  intro h
  cases h with
  | register h => cases h
  | stack h => cases h
  | immutable h => cases h

theorem holds_of_declareRegister (h : (s.declareRegister name w).Holds v) : v = w ∨ s.Holds v := by
  cases h with
  | register h =>
    rw [declareRegister, Table.get?_insert] at h
    split at h
    · exact .inl (Option.some.inj h).symm
    · exact .inr (.register h)
  | stack h hv => exact .inr (.stack h hv)
  | immutable h => exact .inr (.immutable h)

theorem holds_of_setImmutable (h : (s.setImmutable name w).Holds v) : v = w ∨ s.Holds v := by
  cases h with
  | register h => exact .inr (.register h)
  | stack h hv => exact .inr (.stack h hv)
  | immutable h =>
    rw [setImmutable, Table.get?_insert] at h
    split at h
    · exact .inl (Option.some.inj h).symm
    · exact .inr (.immutable h)

/-- **A word stands for a value that the state holds, or is a literal.** -/
theorem holds_or_literal_of_resolve (h : s.resolve token = .ok v) :
    s.Holds v ∨ readLiteral? token = some v := by
  unfold resolve at h
  split at h
  · rename_i hget
    exact .inl (.register (Except.ok.inj h ▸ hget))
  · split at h
    · rename_i hget
      exact .inl (.immutable (Except.ok.inj h ▸ hget))
    · split at h
      · rename_i hliteral
        exact .inr (Except.ok.inj h ▸ hliteral)
      · cases h

theorem Every.of_resolve {p : Value → Prop} (hs : s.Every p)
    (hliteral : ∀ w, readLiteral? token = some w → p w) (h : s.resolve token = .ok v) : p v := by
  rcases holds_or_literal_of_resolve h with h | h
  · exact hs v h
  · exact hliteral v h

end State

section Written

variable {token : String} {value v : Value} {s s' : State}

/-- **After a write a state holds the value and what it held before.** -/
theorem Written.holds (h : Written token value s s') (hv : s'.Holds v) : v = value ∨ s.Holds v := by
  cases hv with
  | register hget =>
    rw [h.registers] at hget
    split at hget
    · exact .inl (Option.some.inj hget).symm
    · exact .inr (.register hget)
  | @stack name vs v hget hmem =>
    rw [h.stacks] at hget
    split at hget
    · obtain ⟨old, hold, rfl⟩ := Option.map_eq_some_iff.1 hget
      rcases List.mem_append.1 hmem with hmem | hmem
      · exact .inr (.stack hold hmem)
      · exact .inl (List.mem_singleton.1 hmem)
    · exact .inr (.stack hget hmem)
  | immutable hget =>
    rw [h.immutables] at hget
    exact .inr (.immutable hget)

theorem Written.every {p : Value → Prop} (h : Written token value s s') (hs : s.Every p)
    (hvalue : p value) : s'.Every p := by
  intro v hv
  rcases h.holds hv with rfl | hv
  · exact hvalue
  · exact hs v hv

theorem Written.holds_value (h : Written token value s s') (hable : Writable s token) :
    s'.Holds value := by
  unfold Writable at hable
  by_cases ht : token = "&"
  · rw [if_pos ht] at hable
    obtain ⟨top, stack, hsel, -, hstack⟩ := hable
    have htop : s'.stacks.get? top = some (stack ++ [value]) := by
      rw [h.stacks, if_pos ⟨ht, hsel⟩, hstack]
      rfl
    exact .stack htop (by simp)
  · apply State.Holds.register
    rw [h.registers, if_pos ⟨ht, rfl⟩]

end Written

end RegisterMachine
