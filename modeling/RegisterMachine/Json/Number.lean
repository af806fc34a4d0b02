/-
# Doubles from JSON numbers

A number is read into a double in three steps. Its digits are gathered into a
word of sixty-four bits; from the first one on that would overflow the word, the
digits on its side of the point are dropped, and of those before the point only
their count is kept, in the power of ten. The word is rounded to a double. The
double is multiplied or divided by the double of the power of ten.

Each of the steps may round, so the result is near the number written and not
always the double nearest to it. Where the first two steps are exact, for words
up to `2 ^ 53` and powers of ten up to the twenty-second, it is the nearest. A
number past the doubles is refused; one too small for them is zero.

Key definitions: `gather`, `Numeral.gathered`, `Binary64.timesPowerOfTen?`,
`Numeral.toBinary64?`.
Key theorems: `gather_lt`.
-/
import RegisterMachine.Binary64.Arithmetic
import RegisterMachine.Decimal.Numeral

namespace RegisterMachine

/-- One more than the greatest word that digits are gathered into. -/
def gatherBound : Nat := 2 ^ 64

/-- Appends digits to a word while they fit. The digits left over are those from
the first one on that would overflow it. -/
def gather : Nat → List Char → Nat × List Char
  | word, [] => (word, [])
  | word, d :: ds =>
    let next := 10 * word + (d.toNat - '0'.toNat)
    if next < gatherBound then gather next ds else (word, d :: ds)

theorem gather_lt {word : Nat} (h : word < gatherBound) (ds : List Char) :
    (gather word ds).1 < gatherBound := by
  induction ds generalizing word with
  | nil => exact h
  | cons d ds ih =>
    unfold gather
    dsimp only
    split
    · rename_i hn; exact ih hn
    · exact h

/-- The decimal that gathering makes of a numeral. A digit dropped before the
point counts in the power of ten; one dropped behind it does not count. -/
def Numeral.gathered (n : Numeral) : Decimal :=
  let (word, dropped) := gather 0 n.whole
  let (word', unread) := gather word n.fraction
  ⟨word', n.exponent + dropped.length - (n.fraction.length - unread.length : Nat)⟩

namespace Binary64

/-- The greatest power of ten that is a double. -/
def greatestPowerOfTen : Nat := 308

/-- The double nearest to a power of ten. -/
def powerOfTen (k : Nat) : Binary64 := ofDecimal false ⟨1, k⟩

/-- Divides by the greatest power of ten some times; zero stays zero. -/
def divGreatest : Nat → Binary64 → Binary64
  | 0, x => x
  | times + 1, x =>
    if x = zero then zero else divGreatest times (x.div (powerOfTen greatestPowerOfTen))

/-- Divides by `10 ^ k`, in several steps if that is no double. -/
def divPowerOfTen (x : Binary64) (k : Nat) : Binary64 :=
  let times := (k - 1) / greatestPowerOfTen
  (divGreatest times x).div (powerOfTen (k - times * greatestPowerOfTen))

/-- A double, not negative, times a power of ten, unless that is past the doubles. -/
def timesPowerOfTen? (x : Binary64) (exponent : Int) : Option Binary64 :=
  if exponent < 0 then some (x.divPowerOfTen exponent.natAbs)
  else if exponent ≤ greatestPowerOfTen then
    let product := x.mul (powerOfTen exponent.toNat)
    if product.isFinite then some product else none
  else if x = zero then some zero
  else none

end Binary64

/-- The double that a JSON number is read into, its sign aside. -/
def Numeral.toBinary64? (n : Numeral) : Option Binary64 :=
  (Binary64.ofInt n.gathered.coefficient).timesPowerOfTen? n.gathered.exponent

end RegisterMachine
