/-
# Failures

Every failure has a kind and a message. A `Failure` does not know where it
happened; a `Report` also has the line of the instruction, counted from one.
Kinds are a closed list, messages are free: the host may add instructions with
messages of their own.

Key definitions: `ErrorKind`, `Failure`, `Report`, `Failure.inOperation`.
-/

namespace RegisterMachine

/-- What kind of failure it is. -/
inductive ErrorKind where
  | syntaxError
  | valueError
  | typeError
  | lookupError
  | nameError
  | zeroDivisionError
  | runtimeError
  deriving DecidableEq

namespace ErrorKind

/-- All kinds. -/
def all : List ErrorKind :=
  [.syntaxError, .valueError, .typeError, .lookupError, .nameError, .zeroDivisionError,
    .runtimeError]

/-- The name of the kind, as it is stored. -/
def name : ErrorKind → String
  | .syntaxError => "Syntax"
  | .valueError => "Value"
  | .typeError => "Type"
  | .lookupError => "Lookup"
  | .nameError => "Name"
  | .zeroDivisionError => "ZeroDivision"
  | .runtimeError => "Runtime"

/-- The name of the kind, as it is shown. -/
def label (kind : ErrorKind) : String := kind.name ++ "Error"

/-- The kind with a given stored name. -/
def ofName? (name : String) : Option ErrorKind := all.find? fun kind => kind.name = name

theorem mem_all (kind : ErrorKind) : kind ∈ all := by cases kind <;> decide

/-- Kinds have different names, so the name tells the kind. -/
theorem ofName?_name (kind : ErrorKind) : ofName? kind.name = some kind := by
  cases kind <;> decide

end ErrorKind

/-- A failure without a place. -/
structure Failure where
  kind : ErrorKind
  message : String
  deriving DecidableEq

/-- A failure and the line of the instruction that failed. -/
structure Report extends Failure where
  line : Nat
  deriving DecidableEq

namespace Failure

/-- The text of a failure. -/
def text (failure : Failure) : String := failure.kind.label ++ ": " ++ failure.message

/-- The failure, reported on a line. -/
def atLine (line : Nat) (failure : Failure) : Report := { failure with line }

/-- The failure as one of an operation: a runtime failure names the operation,
the other kinds say all in their message. -/
def inOperation (operation : String) (failure : Failure) : Failure :=
  match failure.kind with
  | .runtimeError =>
    { failure with
      message := "Math operation '" ++ operation ++ "' failed: " ++ failure.message }
  | _ => failure

@[simp]
theorem kind_inOperation (operation : String) (failure : Failure) :
    (failure.inOperation operation).kind = failure.kind := by
  unfold inOperation; split <;> simp_all

end Failure

/-- The text of a report. -/
def Report.text (report : Report) : String :=
  report.kind.label ++ " at line " ++ toString report.line ++ ": " ++ report.message

end RegisterMachine
