/-
# Text inside JSON strings

A string is written between quotation marks with its quotation marks,
backslashes and control characters escaped, all else as it is. What stands
between the marks is its body. Reading undoes every escape that JSON knows; a
character past `U+FFFF` may be written as a pair of surrogates, and a surrogate
alone is no character.

Key definitions: `Json.escape`, `Json.unescape?`, `Json.scanBody?`.
-/

namespace RegisterMachine.Json

/-- A hexadecimal digit in lower case. -/
def hexDigit (n : Nat) : Char := Nat.digitChar n

/-- The body of a string of one character. -/
def escapeChar (c : Char) : List Char :=
  match c with
  | '"' => ['\\', '"']
  | '\\' => ['\\', '\\']
  | '\x08' => ['\\', 'b']
  | '\t' => ['\\', 't']
  | '\n' => ['\\', 'n']
  | '\x0c' => ['\\', 'f']
  | '\r' => ['\\', 'r']
  | c =>
    if c.toNat < 0x20 then
      ['\\', 'u', '0', '0', hexDigit (c.toNat / 16), hexDigit (c.toNat % 16)]
    else [c]

/-- The body of a string. -/
def escape (cs : List Char) : List Char := cs.flatMap escapeChar

/-- The value of a hexadecimal digit, in either case. -/
def hexValue? (c : Char) : Option Nat :=
  if c.isDigit then some (c.toNat - '0'.toNat)
  else if 'a' ≤ c ∧ c ≤ 'f' then some (c.toNat - 'a'.toNat + 10)
  else if 'A' ≤ c ∧ c ≤ 'F' then some (c.toNat - 'A'.toNat + 10)
  else none

/-- The value of four hexadecimal digits. -/
def hexValues? (a b c d : Char) : Option Nat := do
  let a ← hexValue? a
  let b ← hexValue? b
  let c ← hexValue? c
  let d ← hexValue? d
  some (4096 * a + 256 * b + 16 * c + d)

/-- The character that a letter behind a backslash stands for. -/
def shortEscape? (c : Char) : Option Char :=
  match c with
  | '"' => some '"'
  | '\\' => some '\\'
  | '/' => some '/'
  | 'b' => some '\x08'
  | 'f' => some '\x0c'
  | 'n' => some '\n'
  | 'r' => some '\r'
  | 't' => some '\t'
  | _ => none

/-- Does this unit start a pair of surrogates? -/
def isHighSurrogate (n : Nat) : Bool := 0xd800 ≤ n && n < 0xdc00

/-- Does this unit end a pair of surrogates? -/
def isLowSurrogate (n : Nat) : Bool := 0xdc00 ≤ n && n < 0xe000

/-- The characters of a body whose escapes are well formed, unless there is a
surrogate without its partner. A high surrogate that was read waits as `high`
for the low one. -/
def unescapeFrom? : Option Nat → List Char → Option (List Char)
  | none, [] => some []
  | some _, [] => none
  | high, '\\' :: 'u' :: a :: b :: c :: d :: rest =>
    match hexValues? a b c d, high with
    | none, _ => none
    | some n, some m =>
      if isLowSurrogate n then
        (unescapeFrom? none rest).map
          (Char.ofNat (0x10000 + (m - 0xd800) * 1024 + (n - 0xdc00)) :: ·)
      else none
    | some n, none =>
      if isHighSurrogate n then unescapeFrom? (some n) rest
      else if isLowSurrogate n then none
      else (unescapeFrom? none rest).map (Char.ofNat n :: ·)
  | some _, _ => none
  | none, '\\' :: c :: rest =>
    (shortEscape? c).bind fun e => (unescapeFrom? none rest).map (e :: ·)
  | none, c :: rest => (unescapeFrom? none rest).map (c :: ·)

/-- The characters of a body. -/
def unescape? (body : List Char) : Option (List Char) := unescapeFrom? none body

/-- A body up to its closing mark, and what follows the mark. Escapes are only
checked for their form, and control characters are refused. -/
def scanBody? : List Char → Option (List Char × List Char)
  | [] => none
  | '\\' :: 'u' :: a :: b :: c :: d :: rest =>
    match hexValues? a b c d with
    | none => none
    | some _ =>
      (scanBody? rest).map fun (body, rest) => ('\\' :: 'u' :: a :: b :: c :: d :: body, rest)
  | '\\' :: c :: rest =>
    match shortEscape? c with
    | none => none
    | some _ => (scanBody? rest).map fun (body, rest) => ('\\' :: c :: body, rest)
  | c :: rest =>
    if c = '"' then some ([], rest)
    else if c = '\\' ∨ c.toNat < 0x20 then none
    else (scanBody? rest).map fun (body, rest) => (c :: body, rest)

end RegisterMachine.Json
