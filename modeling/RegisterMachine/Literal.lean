/-
# Number literals

An integer literal is a sign or none, a digit, and then digits and
underscores; it names that integer, whatever its size. A float literal is a
sign or none and then `inf`, `infinity` or `nan` in any case, or decimal digits
with at most one point among them and at least one digit, and a power of ten
or none; it names the nearest double. A word that is both is an integer.

Key definitions: `readInteger?`, `readFloat?`, `readLiteral?`.
-/
import RegisterMachine.Decimal.Numeral
import RegisterMachine.Text.Case
import RegisterMachine.Value.Basic

namespace RegisterMachine

/-- The integer named by an integer literal. -/
def readInteger? (cs : List Char) : Option Int :=
  match splitSign cs with
  | (_, []) => none
  | (negative, d :: rest) =>
    if d.isDigit && rest.all fun c => c.isDigit || c == '_' then
      some (signed negative (ofDigits (d :: rest.filter Char.isDigit)))
    else none

/-- The double named by a float literal. -/
def readFloat? (cs : List Char) : Option Binary64 :=
  let (negative, body) := splitSign cs
  let named := body.map Char.toUpper
  if named = ['I', 'N', 'F'] ∨ named = ['I', 'N', 'F', 'I', 'N', 'I', 'T', 'Y'] then
    some (.infinite negative)
  else if named = ['N', 'A', 'N'] then some .nan
  else (Numeral.read? body).map fun n => Binary64.ofDecimal negative n.value

/-- The value named by a literal. -/
def readLiteral? (token : String) : Option Value :=
  match readInteger? token.toList with
  | some n => some (.ofInt n)
  | none => (readFloat? token.toList).map .float

end RegisterMachine
