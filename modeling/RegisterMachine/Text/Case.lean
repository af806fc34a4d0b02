/-
# Letter case

Names of instructions and operations are compared without regard to the case
of the ASCII letters. Other letters keep their case: `é` and `É` are different.

Key definitions: `upperCase`.
Key theorems: `upperCase_upperCase`.
-/

namespace RegisterMachine

/-- The text with its ASCII letters in upper case. -/
def upperCase (s : String) : String := String.ofList (s.toList.map Char.toUpper)

theorem toUpper_toUpper (c : Char) : c.toUpper.toUpper = c.toUpper := by
  unfold Char.toUpper
  by_cases h : 'a'.val ≤ c.val ∧ c.val ≤ 'z'.val
  · rw [dif_pos h, dif_neg]
    intro h'
    have hc := h.2
    have hl := h'.1
    simp only [UInt32.le_iff_toNat_le, UInt32.toNat_add] at h hc hl
    have ea : 'a'.val.toNat = 97 := rfl
    have ez : 'z'.val.toNat = 122 := rfl
    have ed : ('A'.val - 'a'.val).toNat = 4294967264 := rfl
    omega
  · rw [dif_neg h, dif_neg h]

@[simp]
theorem upperCase_upperCase (s : String) : upperCase (upperCase s) = upperCase s := by
  unfold upperCase
  rw [String.toList_ofList, List.map_map]
  congr 1
  exact List.map_congr_left fun c _ => toUpper_toUpper c

end RegisterMachine
