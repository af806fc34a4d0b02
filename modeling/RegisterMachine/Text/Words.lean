/-
# Words of a line

A line is cut at blanks, which are the twenty-five characters of Unicode's
White_Space. The words are the longest pieces without a blank.

Key definitions: `isBlank`, `words`.
-/

namespace RegisterMachine

/-- Is it one of the characters that part words? -/
def isBlank (c : Char) : Bool :=
  let n := c.toNat
  (9 ≤ n && n ≤ 13) || n == 0x20 || n == 0x85 || n == 0xa0 || n == 0x1680 ||
    (0x2000 ≤ n && n ≤ 0x200a) || n == 0x2028 || n == 0x2029 || n == 0x202f || n == 0x205f ||
    n == 0x3000

/-- The pieces between the blanks, empty ones among them. -/
def pieces : List Char → List (List Char)
  | [] => [[]]
  | c :: cs =>
    if isBlank c then [] :: pieces cs
    else
      match pieces cs with
      | [] => [[c]]
      | w :: ws => (c :: w) :: ws

/-- The words of a line. -/
def words (line : String) : List String :=
  ((pieces line.toList).filter fun w => !w.isEmpty).map String.ofList

end RegisterMachine
