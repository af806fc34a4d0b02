/-
# Instruction libraries

A library gives instructions, by name in any case, a handler each, and may
bring an initializer. Installing it into a library set claims all its
instructions at once or, if one is taken, none; the initializer runs when the
library is accepted. A line is cut into words and handed to the handler of its
first word.

Key definitions: `Library`, `LibrarySet`, `LibrarySet.install`,
`LibrarySet.executeLine`.
Key theorems: `LibrarySet.install_error`.
-/
import RegisterMachine.Instruction
import RegisterMachine.Text.Quoted
import RegisterMachine.Text.Words

namespace RegisterMachine

/-- Sets a state up for the instructions of a library. -/
abbrev Initializer := State → State

/-- Instructions that are installed together. -/
structure Library where
  name : String
  instructions : Table Handler
  initializer : Option Initializer

namespace Library

/-- A library without instructions. -/
def named (name : String) : Library := ⟨name, .empty, none⟩

/-- The library with one more instruction. Of several of one name the last
counts. -/
def withInstruction (l : Library) (instruction : String) (handler : Handler) : Library :=
  { l with instructions := l.instructions.insert (upperCase instruction) handler }

/-- The library with an initializer. -/
def withInitializer (l : Library) (initializer : Initializer) : Library :=
  { l with initializer := some initializer }

/-- The handler of an instruction. -/
def handler? (l : Library) (instruction : String) : Option Handler :=
  l.instructions.get? (upperCase instruction)

/-- The library as a line of text. -/
def text (l : Library) : String :=
  "Library \x7b name: " ++ quoted l.name ++ ", instructions: [" ++
    ", ".intercalate (l.instructions.names.map quoted) ++ "], initializer: " ++
    toString l.initializer.isSome ++ " \x7d"

end Library

/-- Why a library is not installed. -/
inductive InstallFailure where
  | alreadyInstalled (library : String)
  | instructionConflict (instruction library owner : String)
  deriving DecidableEq

/-- The wording of a refusal. -/
def InstallFailure.message : InstallFailure → String
  | .alreadyInstalled library => "library '" ++ library ++ "' is already installed"
  | .instructionConflict instruction library owner =>
    "instruction '" ++ instruction ++ "' from library '" ++ library ++
      "' is already provided by '" ++ owner ++ "'"

/-- A handler and the name of the library it comes from. -/
structure Owned where
  owner : String
  handler : Handler

/-- The libraries installed, in order, and the handlers of their instructions. -/
structure LibrarySet where
  installed : List String
  handlers : Table Owned

namespace LibrarySet

/-- The set without libraries. -/
def empty : LibrarySet := ⟨[], .empty⟩

/-- Is a library of this name installed? -/
def isInstalled (l : LibrarySet) (name : String) : Bool := l.installed.contains name

/-- Is there an instruction of this name, in any case? -/
def hasInstruction (l : LibrarySet) (instruction : String) : Bool :=
  l.handlers.contains (upperCase instruction)

/-- The first instruction of a list, in its order, that is taken already, and
its owner. -/
def conflict? (l : LibrarySet) : List String → Option (String × String)
  | [] => none
  | instruction :: rest =>
    match l.handlers.get? instruction with
    | some owned => some (instruction, owned.owner)
    | none => l.conflict? rest

/-- The set after all instructions of a library were claimed for it. -/
def claim (l : LibrarySet) (library : Library) : LibrarySet :=
  ⟨l.installed ++ [library.name],
    library.instructions.entries.foldl
      (fun handlers e => handlers.insert e.1 ⟨library.name, e.2⟩) l.handlers⟩

/-- Installs a library and runs its initializer. A library whose name is
installed already, or one of whose instructions is taken, is refused. -/
def install (l : LibrarySet) (library : Library) (s : State) :
    Except InstallFailure Unit × LibrarySet × State :=
  if l.isInstalled library.name then (.error (.alreadyInstalled library.name), l, s)
  else
    match l.conflict? library.instructions.names with
    | some (instruction, owner) =>
      (.error (.instructionConflict instruction library.name owner), l, s)
    | none => (.ok (), l.claim library, (library.initializer.getD id) s)

/-- Carries out a line: the handler of its first word gets all its words. A line
without words does nothing. -/
def executeLine (l : LibrarySet) (line : String) (s : State) : Outcome :=
  match words line with
  | [] => (.ok (), s)
  | first :: rest =>
    match l.handlers.get? (upperCase first) with
    | some owned => owned.handler (first :: rest) s
    | none => (.error (s.report .syntaxError ("Unknown instruction '" ++ first ++ "'.")), s)

/-- **A library that is refused changes nothing.** -/
theorem install_error {l l' : LibrarySet} {library : Library} {s s' : State}
    {failure : InstallFailure} (h : l.install library s = (.error failure, l', s')) :
    l' = l ∧ s' = s := by
  unfold install at h
  split at h
  · cases h
    exact ⟨rfl, rfl⟩
  · split at h
    · cases h
      exact ⟨rfl, rfl⟩
    · cases h

end LibrarySet

end RegisterMachine
