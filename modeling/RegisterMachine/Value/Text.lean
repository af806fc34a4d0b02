/-
# The text of a value

Integers are shown with all their digits. A double without fraction and below
`10 ^ 15` is shown as that integer followed by `.0`, so that it still reads as
a double; every other finite double is shown positionally by its shortest
digits. A complex number is shown in brackets, its parts without `.0`, with
the sign of the imaginary part between them. That sign is shown of NaN too, and
nowhere else is the sign of a NaN seen.

Key definitions: `Binary64.textWith`, `Value.textWith`, `Value.text`.
-/
import RegisterMachine.Binary64.Integral
import RegisterMachine.Decimal.Shortest
import RegisterMachine.Decimal.Layout
import RegisterMachine.Value.Basic

namespace RegisterMachine

/-- The text of a magnitude. An integer below `10 ^ 15` is followed by `tail`. -/
def Magnitude.textWith (tail : List Char) (m : Magnitude) : List Char :=
  if m.quanta % Binary64.unit = 0 ∧ m.quanta < 10 ^ 15 * Binary64.unit then
    digitsOf (m.quanta / Binary64.unit) ++ tail
  else (m.shortest .up).positional []

/-- The text of a double; `tail` is what follows an integer below `10 ^ 15`. -/
def Binary64.textWith (tail : List Char) : Binary64 → List Char
  | .nan => ['N', 'a', 'N']
  | .infinite negative => (if negative then ['-'] else []) ++ ['i', 'n', 'f']
  | .finite negative m => (if negative then ['-'] else []) ++ m.textWith tail

/-- The text of a complex number; `nanNegative` is the sign of an imaginary part that is NaN. -/
def ComplexNumber.textWith (nanNegative : Bool) (z : ComplexNumber) : List Char :=
  '(' :: z.re.textWith [] ++
    (if z.im.isNegative || (z.im.isNaN && nanNegative) then '-' else '+') ::
    z.im.abs.textWith [] ++ ['j', ')']

namespace Value

/-- The characters of the text of a value; `nanNegative` is the sign of a NaN in it. -/
def charsWith (nanNegative : Bool) : Value → List Char
  | .small n => signedDigits n.val
  | .big n => signedDigits n
  | .float x => x.textWith ['.', '0']
  | .complex z => z.textWith nanNegative

/-- The text of a value; `nanNegative` is the sign of a NaN in it. -/
def textWith (nanNegative : Bool) (v : Value) : String := String.ofList (v.charsWith nanNegative)

/-- The text of a value, every NaN in it with a plus sign. -/
def text (v : Value) : String := v.textWith false

end Value

end RegisterMachine
