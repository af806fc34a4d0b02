/-
# Snapshots

Values and states are saved as JSON texts and restored from them. Writing uses
one form; reading also takes records as arrays of their fields, fields in any
order with others between them, and integers written with needless digits. A
field that is known may stand once only, and of a name that stands several
times in a table the last counts. Doubles that are not finite are written as
null and are not read back; finite ones are written exactly and read as JSON
numbers are, which may miss the double that was written by a place.

Key definitions: `Value.toJson`, `Value.ofJson?`, `State.toJson`,
`State.ofJson?`, `State.snapshot`, `State.restore?`.
-/
import RegisterMachine.Json.Reader
import RegisterMachine.State

namespace RegisterMachine

namespace Json

/-- An object with the given members. -/
def record (members : List (String × Json)) : Json :=
  .object (members.map fun (key, value) => (escape key.toList, value))

/-- Members with their names read. -/
def named? : List (List Char × Json) → Option (List (String × Json))
  | [] => some []
  | (key, value) :: members =>
    (unescape? key).bind fun name =>
      (named? members).map ((String.ofList name, value) :: ·)

/-- The members that have a name, in order. -/
def allNamed (name : String) (members : List (String × Json)) : List Json :=
  (members.filter fun member => member.1 = name).map (·.2)

/-- The member of a name that stands exactly once. -/
def only? (name : String) (members : List (String × Json)) : Option Json :=
  match allNamed name members with
  | [value] => some value
  | _ => none

/-- The member of a name that stands at most once; without it, null. -/
def onlyOrNull? (name : String) (members : List (String × Json)) : Option Json :=
  match allNamed name members with
  | [] => some .null
  | [value] => some value
  | _ => none

/-- What `f` reads from every item of a list. -/
def readAll? {α : Type} (f : Json → Option α) : List Json → Option (List α)
  | [] => some []
  | item :: items => (f item).bind fun a => (readAll? f items).map (a :: ·)

/-- What `f` reads from every member of a list. -/
def readNamed? {α : Type} (f : Json → Option α) :
    List (String × Json) → Option (List (String × α))
  | [] => some []
  | (name, value) :: members =>
    (f value).bind fun a => (readNamed? f members).map ((name, a) :: ·)

/-- The items that `f` reads from an array. -/
def toList? {α : Type} (f : Json → Option α) : Json → Option (List α)
  | .array items => readAll? f items
  | _ => none

/-- The table that `f` reads from an object. -/
def toTable? {α : Type} (f : Json → Option α) : Json → Option (Table α)
  | .object members =>
    ((named? members).bind fun members => readNamed? f members).map Table.ofList
  | _ => none

/-- A table as an object. -/
def ofTable {α : Type} (f : α → Json) (t : Table α) : Json :=
  record (t.entries.map fun (name, value) => (name, f value))

/-- The string that a value is; null is none. -/
def toOptionalText? : Json → Option (Option String)
  | .null => some none
  | j => j.toText?.map some

/-- A natural number below a bound. -/
def toNatBelow? (bound : Nat) (j : Json) : Option Nat :=
  j.toInt?.bind fun n => if 0 ≤ n ∧ n < bound then some n.toNat else none

end Json

/-- One more than the greatest digit of an unbounded integer. -/
def limbBound : Nat := 2 ^ 32

/-- The digits of a natural number to the base `2 ^ 32`, the least first, at
most `fuel` of them. -/
def limbsFrom : Nat → Nat → List Nat
  | 0, _ => []
  | fuel + 1, n => if n = 0 then [] else n % limbBound :: limbsFrom fuel (n / limbBound)

/-- The digits of a natural number to the base `2 ^ 32`, the least first. -/
def limbs (n : Nat) : List Nat := limbsFrom (n.log2 / 32 + 1) n

/-- The number with the given digits to the base `2 ^ 32`, the least first. -/
def ofLimbs : List Nat → Nat
  | [] => 0
  | limb :: limbs => limb + limbBound * ofLimbs limbs

/-- An unbounded integer: its sign and its digits. -/
def bigToJson (n : Int) : Json :=
  .array [.ofInt n.sign, .array ((limbs n.natAbs).map fun (limb : Nat) => .ofInt limb)]

/-- An unbounded integer from its sign and digits. With the sign zero it is
zero, whatever the digits. -/
def bigOfJson? : Json → Option Int
  | .array [sign, digits] =>
    sign.toInt?.bind fun sign =>
      if -1 ≤ sign ∧ sign ≤ 1 then
        (digits.toList? (Json.toNatBelow? limbBound)).map fun limbs => sign * ofLimbs limbs
      else none
  | _ => none

namespace ComplexNumber

/-- A complex number as a record of its parts. -/
def toJson (z : ComplexNumber) : Json :=
  .record [("re", .ofFloat z.re), ("im", .ofFloat z.im)]

/-- A complex number from its parts. -/
def ofParts? (re im : Json) : Option ComplexNumber :=
  re.toFloat?.bind fun re => im.toFloat?.map fun im => ⟨re, im⟩

/-- A complex number from a record or an array of its parts. -/
def ofJson? : Json → Option ComplexNumber
  | .array [re, im] => ofParts? re im
  | .object members =>
    (Json.named? members).bind fun members =>
      (Json.only? "re" members).bind fun re =>
        (Json.only? "im" members).bind fun im => ofParts? re im
  | _ => none

end ComplexNumber

namespace Value

/-- A value as an object whose one member is named for its kind. -/
def toJson : Value → Json
  | .small n => .record [("Int", .ofInt n.val)]
  | .big n => .record [("BigInt", bigToJson n)]
  | .float x => .record [("Float", .ofFloat x)]
  | .complex z => .record [("Complex", z.toJson)]

/-- A value from the name of its kind and what stands there. -/
def ofMember? (kind : String) (content : Json) : Option Value :=
  if kind = "Int" then (content.toInt?.bind Word.ofInt?).map .small
  else if kind = "BigInt" then (bigOfJson? content).map .big
  else if kind = "Float" then content.toFloat?.map .float
  else if kind = "Complex" then (ComplexNumber.ofJson? content).map .complex
  else none

/-- A value from an object with one member. -/
def ofJson? : Json → Option Value
  | .object [(key, content)] =>
    (Json.unescape? key).bind fun kind => ofMember? (String.ofList kind) content
  | _ => none

/-- The text a value is saved as. -/
def snapshot (v : Value) : String := String.ofList v.toJson.render

/-- The value saved as a text. -/
def restore? (text : String) : Option Value := (Json.read? text).bind ofJson?

end Value

namespace State

/-- A state as a record of its parts. -/
def toJson (s : State) : Json :=
  .record
    [("registers", .ofTable Value.toJson s.registers),
      ("stacks", .ofTable (fun stack => .array (stack.map Value.toJson)) s.stacks),
      ("immutables", .ofTable Value.toJson s.immutables),
      ("current_stack_name", s.selected.elim .null .ofText),
      ("instruction_pointer", .ofInt s.position)]

/-- A state from its parts. -/
def ofParts? (registers piles immutables selected position : Json) : Option State :=
  (registers.toTable? Value.ofJson?).bind fun registers =>
    (piles.toTable? (Json.toList? Value.ofJson?)).bind fun piles =>
      (immutables.toTable? Value.ofJson?).bind fun immutables =>
        selected.toOptionalText?.bind fun selected =>
          (position.toNatBelow? (2 ^ 64)).map fun position =>
            ⟨registers, piles, immutables, selected, position⟩

/-- A state from a record or an array of its parts. -/
def ofJson? : Json → Option State
  | .array [registers, piles, immutables, selected, position] =>
    ofParts? registers piles immutables selected position
  | .object members =>
    (Json.named? members).bind fun members =>
      (Json.only? "registers" members).bind fun registers =>
        (Json.only? "stacks" members).bind fun piles =>
          (Json.only? "immutables" members).bind fun immutables =>
            (Json.onlyOrNull? "current_stack_name" members).bind fun selected =>
              (Json.only? "instruction_pointer" members).bind fun position =>
                ofParts? registers piles immutables selected position
  | _ => none

/-- The text a state is saved as. -/
def snapshot (s : State) : String := String.ofList s.toJson.render

/-- The state saved as a text. -/
def restore? (text : String) : Option State := (Json.read? text).bind ofJson?

end State

namespace ErrorKind

/-- The text a kind of failure is saved as. -/
def snapshot (kind : ErrorKind) : String := String.ofList (Json.ofText kind.name).render

/-- A kind of failure from its name, alone or as the one member of an object
that is null. -/
def ofJson? : Json → Option ErrorKind
  | .string body => (Json.unescape? body).bind fun name => ofName? (String.ofList name)
  | .object [(key, .null)] =>
    (Json.unescape? key).bind fun name => ofName? (String.ofList name)
  | _ => none

/-- The kind of failure saved as a text. -/
def restore? (text : String) : Option ErrorKind := (Json.read? text).bind ofJson?

end ErrorKind

end RegisterMachine
