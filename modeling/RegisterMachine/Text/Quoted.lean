/-
# Quoted text

A text is shown between quotation marks. Quotation marks and backslashes in it
are preceded by a backslash, tabs, line ends and the null character are written
by a letter, and characters that cannot be seen by their number.

Key definitions: `quoted`.
-/
import RegisterMachine.Text.Hidden

namespace RegisterMachine

/-- A character by its number, in hexadecimal. -/
def numbered (c : Char) : List Char :=
  '\\' :: 'u' :: '\x7b' :: (Nat.toDigits 16 c.toNat ++ ['\x7d'])

/-- A character as it is shown between quotation marks. -/
def quotedChar (c : Char) : List Char :=
  match c with
  | '"' => ['\\', '"']
  | '\\' => ['\\', '\\']
  | '\t' => ['\\', 't']
  | '\r' => ['\\', 'r']
  | '\n' => ['\\', 'n']
  | '\x00' => ['\\', '0']
  | c => if isHidden c then numbered c else [c]

/-- A text between quotation marks. -/
def quoted (s : String) : String :=
  String.ofList ('"' :: s.toList.flatMap quotedChar ++ ['"'])

end RegisterMachine
