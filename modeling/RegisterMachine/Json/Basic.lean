/-
# JSON values

A JSON value whose numbers and strings are still the text they were written
as: what a number or a string means depends on what is looked for in its place,
and where nothing is looked for it does not have to mean anything. A number is
the text of its digits, a string the body between its marks.

Key definitions: `Json`, `Json.render`, `Json.isNumber`, `Json.toInt?`,
`Json.toFloat?`, `Json.toText?`, `Json.ofFloat`.
-/
import RegisterMachine.Decimal.Shortest
import RegisterMachine.Json.Number
import RegisterMachine.Json.Text

namespace RegisterMachine

/-- A JSON value. -/
inductive Json where
  | null
  | bool (b : Bool)
  | number (text : List Char)
  | string (body : List Char)
  | array (items : List Json)
  | object (members : List (List Char × Json))

namespace Json

mutual

/-- The text of a value, without blanks. -/
def render : Json → List Char
  | .null => ['n', 'u', 'l', 'l']
  | .bool true => ['t', 'r', 'u', 'e']
  | .bool false => ['f', 'a', 'l', 's', 'e']
  | .number text => text
  | .string body => '"' :: body ++ ['"']
  | .array [] => ['[', ']']
  | .array (item :: items) => '[' :: render item ++ renderItems items
  | .object [] => ['\x7b', '\x7d']
  | .object ((key, value) :: members) =>
    '\x7b' :: '"' :: key ++ '"' :: ':' :: render value ++ renderMembers members

/-- The text of the further items of an array, and its end. -/
def renderItems : List Json → List Char
  | [] => [']']
  | item :: items => ',' :: render item ++ renderItems items

/-- The text of the further members of an object, and its end. -/
def renderMembers : List (List Char × Json) → List Char
  | [] => ['\x7d']
  | (key, value) :: members =>
    ',' :: '"' :: key ++ '"' :: ':' :: render value ++ renderMembers members

end

/-- Is it the text of a JSON number? Its digits before the point start with a
zero only if that is all, and a point has digits behind it. -/
def isNumber (text : List Char) : Bool :=
  let body := if text.head? = some '-' then text.drop 1 else text
  let whole := body.takeWhile Char.isDigit
  let rest := body.dropWhile Char.isDigit
  let (fraction, tail) := splitFraction rest
  whole ≠ [] && (whole.head? ≠ some '0' || whole.length == 1) &&
    (rest.head? ≠ some '.' || fraction ≠ []) && (readExponent? tail).isSome

/-- The integer that a value is: a number without point and power of ten. Minus
zero is a double and no integer. -/
def toInt? : Json → Option Int
  | .number text =>
    let (negative, digits) := splitSign text
    if digits.all Char.isDigit ∧ ¬ (negative = true ∧ ofDigits digits = 0) then
      some (signed negative (ofDigits digits))
    else none
  | _ => none

/-- The double that a number is read into, unless it is past the doubles. -/
def toFloat? : Json → Option Binary64
  | .number text =>
    let (negative, body) := splitSign text
    (Numeral.read? body).bind fun n => n.toBinary64?.map (Binary64.withSign negative)
  | _ => none

/-- The characters of the string that a value is. -/
def toText? : Json → Option String
  | .string body => (unescape? body).map String.ofList
  | _ => none

/-- A string as a value. -/
def ofText (s : String) : Json := .string (escape s.toList)

/-- An integer as a value. -/
def ofInt (n : Int) : Json := .number (signedDigits n)

/-- The text of a magnitude: its shortest digits, of two equally near ones the
even. They are written positionally from `10 ^ (-5)` up to `10 ^ 16`. -/
def magnitudeText (m : Magnitude) : List Char :=
  if m.ordinal = 0 then ['0', '.', '0']
  else
    let d := m.shortest .even
    if -5 < d.pointPlace ∧ d.pointPlace ≤ 16 then d.positional ['.', '0'] else d.scientific

/-- A double as a value; NaN and infinities are null. -/
def ofFloat : Binary64 → Json
  | .finite negative m => .number ((if negative then ['-'] else []) ++ magnitudeText m)
  | _ => .null

end Json

end RegisterMachine
