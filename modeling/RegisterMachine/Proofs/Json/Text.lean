/-
# Strings that are written and read

The body that is written of a string is scanned as a whole, whatever follows
its closing mark (`scanBody?_escape`), and reading its escapes gives the string
(`unescape?_escape`). Both are proved one character at a time: a character is
written as itself, as a letter behind a backslash, or as a control character
with its four digits, and never as a surrogate.

Key theorems: `scanBody?_escape`, `unescape?_escape`.
-/
import RegisterMachine.Json.Text

namespace RegisterMachine.Json

/-! ### Control characters -/

theorem hexValue?_hexDigit {n : Nat} (h : n < 16) : hexValue? (hexDigit n) = some n := by
  revert n
  decide

/-- The four digits of a control character are read as the character. -/
theorem hexValues?_control {c : Char} (h : c.toNat < 0x20) :
    hexValues? '0' '0' (hexDigit (c.toNat / 16)) (hexDigit (c.toNat % 16)) = some c.toNat := by
  have h0 : hexValue? '0' = some 0 := by decide
  have hhigh := hexValue?_hexDigit (n := c.toNat / 16) (by omega)
  have hlow := hexValue?_hexDigit (n := c.toNat % 16) (by omega)
  have hsum : 4096 * 0 + 256 * 0 + 16 * (c.toNat / 16) + c.toNat % 16 = c.toNat := by omega
  simp only [hexValues?, h0, hhigh, hlow, bind, Option.bind, hsum]

/-! ### One character -/

theorem scanBody?_cons {c : Char} (hmark : c ≠ '"') (hslash : c ≠ '\\')
    (hcontrol : ¬ c.toNat < 0x20) (cs : List Char) :
    scanBody? (c :: cs) = (scanBody? cs).map fun (body, rest) => (c :: body, rest) := by
  rw [scanBody?, if_neg hmark, if_neg (not_or.2 ⟨hslash, hcontrol⟩)]
  · exact fun _ _ _ _ _ h => absurd h hslash
  · exact fun _ _ h => absurd h hslash

theorem unescapeFrom?_cons {c : Char} (hslash : c ≠ '\\') (cs : List Char) :
    unescapeFrom? none (c :: cs) = (unescapeFrom? none cs).map (c :: ·) := by
  rw [unescapeFrom?]
  · exact fun _ _ _ _ _ h => absurd h hslash
  · exact fun _ _ h => absurd h hslash

theorem scanBody?_escapeChar (c : Char) (cs : List Char) :
    scanBody? (escapeChar c ++ cs) =
      (scanBody? cs).map fun (body, rest) => (escapeChar c ++ body, rest) := by
  unfold escapeChar
  split
  iterate 7 rfl
  rename_i hmark hslash _ _ _ _ _
  by_cases h : c.toNat < 0x20
  · have hx := hexValues?_control h
    simp [h, scanBody?, hx]
  · rw [if_neg h]
    exact scanBody?_cons hmark hslash h cs

theorem unescapeFrom?_escapeChar (c : Char) (cs : List Char) :
    unescapeFrom? none (escapeChar c ++ cs) = (unescapeFrom? none cs).map (c :: ·) := by
  unfold escapeChar
  split
  iterate 7 rfl
  rename_i hmark hslash _ _ _ _ _
  by_cases h : c.toNat < 0x20
  · have hx := hexValues?_control h
    have hhigh : isHighSurrogate c.toNat = false := by
      simp only [isHighSurrogate, Bool.and_eq_false_iff, decide_eq_false_iff_not]; omega
    have hlow : isLowSurrogate c.toNat = false := by
      simp only [isLowSurrogate, Bool.and_eq_false_iff, decide_eq_false_iff_not]; omega
    simp [h, unescapeFrom?, hx, hhigh, hlow, Char.ofNat_toNat]
  · rw [if_neg h]
    exact unescapeFrom?_cons hslash cs

/-! ### A whole string -/

/-- **The body of a string is scanned up to the mark behind it.** -/
theorem scanBody?_escape (cs rest : List Char) :
    scanBody? (escape cs ++ '"' :: rest) = some (escape cs, rest) := by
  induction cs with
  | nil => simp [escape, scanBody?]
  | cons c cs ih =>
    have hcons : escape (c :: cs) = escapeChar c ++ escape cs := List.flatMap_cons
    rw [hcons, List.append_assoc, scanBody?_escapeChar, ih, Option.map_some]

/-- **What was escaped is read back.** -/
theorem unescape?_escape (cs : List Char) : unescape? (escape cs) = some cs := by
  unfold unescape?
  induction cs with
  | nil => rfl
  | cons c cs ih =>
    have hcons : escape (c :: cs) = escapeChar c ++ escape cs := List.flatMap_cons
    rw [hcons, unescapeFrom?_escapeChar, ih, Option.map_some]

end RegisterMachine.Json
