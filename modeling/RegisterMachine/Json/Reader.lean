/-
# Reading JSON texts

A text is cut into tokens, between which blanks may stand, and a value is read
from the tokens by recursive descent. The fuel of the descent is twice the
number of tokens: of two steps one at least takes a token.

Key definitions: `Json.Token`, `Json.tokens?`, `Json.readValue?`, `Json.read?`.
-/
import RegisterMachine.Json.Basic

namespace RegisterMachine.Json

/-- The least parts of a JSON text. -/
inductive Token where
  | openBrace
  | closeBrace
  | openBracket
  | closeBracket
  | colon
  | comma
  | null
  | bool (b : Bool)
  | number (text : List Char)
  | string (body : List Char)
  deriving DecidableEq

/-- Is it a character that may stand between tokens? -/
def isSpace (c : Char) : Bool := c == ' ' || c == '\t' || c == '\n' || c == '\r'

/-- Is it a character that numbers are written with? -/
def isNumberChar (c : Char) : Bool :=
  c.isDigit || c == '-' || c == '+' || c == '.' || c == 'e' || c == 'E'

/-- The token that a text starts with, and what follows it. -/
def token? (text : List Char) : Option (Token × List Char) :=
  match text with
  | '\x7b' :: rest => some (.openBrace, rest)
  | '\x7d' :: rest => some (.closeBrace, rest)
  | '[' :: rest => some (.openBracket, rest)
  | ']' :: rest => some (.closeBracket, rest)
  | ':' :: rest => some (.colon, rest)
  | ',' :: rest => some (.comma, rest)
  | 'n' :: 'u' :: 'l' :: 'l' :: rest => some (.null, rest)
  | 't' :: 'r' :: 'u' :: 'e' :: rest => some (.bool true, rest)
  | 'f' :: 'a' :: 'l' :: 's' :: 'e' :: rest => some (.bool false, rest)
  | '"' :: rest => (scanBody? rest).map fun (body, rest) => (.string body, rest)
  | _ =>
    let number := text.takeWhile isNumberChar
    if isNumber number then some (.number number, text.dropWhile isNumberChar) else none

/-- The tokens of a text, at most as many as `fuel`. -/
def tokensFrom? : Nat → List Char → Option (List Token)
  | fuel, text =>
    match text.dropWhile isSpace with
    | [] => some []
    | c :: cs =>
      match fuel with
      | 0 => none
      | fuel + 1 =>
        match token? (c :: cs) with
        | none => none
        | some (token, rest) => (tokensFrom? fuel rest).map (token :: ·)

/-- The tokens of a text. A token has a character at least. -/
def tokens? (text : List Char) : Option (List Token) := tokensFrom? text.length text

mutual

/-- A value from the start of some tokens, and the tokens that follow it. -/
def readValue? : Nat → List Token → Option (Json × List Token)
  | 0, _ => none
  | fuel + 1, tokens =>
    match tokens with
    | .null :: rest => some (.null, rest)
    | .bool b :: rest => some (.bool b, rest)
    | .number text :: rest => some (.number text, rest)
    | .string body :: rest => some (.string body, rest)
    | .openBracket :: .closeBracket :: rest => some (.array [], rest)
    | .openBracket :: rest =>
      (readItems? fuel rest).map fun (items, rest) => (.array items, rest)
    | .openBrace :: .closeBrace :: rest => some (.object [], rest)
    | .openBrace :: rest =>
      (readMembers? fuel rest).map fun (members, rest) => (.object members, rest)
    | _ => none

/-- The items of an array up to its closing bracket, at least one. -/
def readItems? : Nat → List Token → Option (List Json × List Token)
  | 0, _ => none
  | fuel + 1, tokens =>
    match readValue? fuel tokens with
    | some (item, .closeBracket :: rest) => some ([item], rest)
    | some (item, .comma :: rest) =>
      (readItems? fuel rest).map fun (items, rest) => (item :: items, rest)
    | _ => none

/-- The members of an object up to its closing brace, at least one. -/
def readMembers? : Nat → List Token → Option (List (List Char × Json) × List Token)
  | 0, _ => none
  | fuel + 1, tokens =>
    match tokens with
    | .string key :: .colon :: tokens =>
      match readValue? fuel tokens with
      | some (value, .closeBrace :: rest) => some ([(key, value)], rest)
      | some (value, .comma :: rest) =>
        (readMembers? fuel rest).map fun (members, rest) => ((key, value) :: members, rest)
      | _ => none
    | _ => none

end

/-- The value that a text is, with blanks around it or not. -/
def read? (text : String) : Option Json :=
  (tokens? text.toList).bind fun tokens =>
    match readValue? (2 * tokens.length) tokens with
    | some (value, []) => some value
    | _ => none

end RegisterMachine.Json
