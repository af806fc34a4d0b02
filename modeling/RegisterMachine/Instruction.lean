/-
# The arithmetic instruction

An instruction is a list of words: the word it was called by, the name of an
operation, a destination, and operands. Its operands are resolved from left to
right, the operation is evaluated on them, and only then is the result written.
The first stage that fails decides the report, and the state is then the one
the instruction started from.

Key definitions: `Destination`, `Destination.write`, `Handler`, `executeWith`,
`execute`.
Key theorems: `Destination.token_ofToken`, `executeWith_error`.
-/
import RegisterMachine.Operation.Catalog
import RegisterMachine.State

namespace RegisterMachine

/-- What an instruction answers, and the state it leaves. -/
abbrev Outcome := Except Report Unit × State

/-- Carries out an instruction, given by its words. -/
abbrev Handler := List String → State → Outcome

/-- Where a result goes. -/
inductive Destination where
  /-- On top of the selected stack. -/
  | selectedStack
  /-- To an immutable, which is never written. -/
  | immutable (name : String)
  /-- To a register, which has to exist. -/
  | register (name : String)
  deriving DecidableEq

namespace Destination

/-- The destination that a word means: `&` is the selected stack, and a plus
sign in front marks an immutable. -/
def ofToken (token : String) : Destination :=
  if token = "&" then .selectedStack
  else if token.toList.head? = some '+' then .immutable token
  else .register token

/-- The word of a destination. -/
def token : Destination → String
  | .selectedStack => "&"
  | .immutable name => name
  | .register name => name

theorem token_ofToken (t : String) : (ofToken t).token = t := by
  unfold ofToken
  split
  · rename_i h; exact h.symm
  · split <;> rfl

/-- Writes a value: on top of the selected stack or over a register. No stack or
register is created. -/
def write (d : Destination) (value : Value) (s : State) (line : Nat) : Outcome :=
  match d with
  | .selectedStack =>
    match s.selected.filter fun name => name ≠ "" with
    | none => (.error ⟨⟨.lookupError, "No stack selected for '&' destination."⟩, line⟩, s)
    | some name =>
      match s.stacks.get? name with
      | none =>
        (.error ⟨⟨.lookupError, "Selected stack '" ++ name ++ "' does not exist."⟩, line⟩, s)
      | some stack => (.ok (), { s with «stacks» := s.stacks.insert name (stack ++ [value]) })
  | .immutable name =>
    (.error ⟨⟨.typeError, "Cannot assign to immutable '" ++ name ++ "'."⟩, line⟩, s)
  | .register name =>
    if s.registers.contains name then
      (.ok (), { s with registers := s.registers.insert name value })
    else
      (.error ⟨⟨.nameError, "Invalid destination '" ++ name ++ "'. Must be a register or '&'."⟩,
        line⟩, s)

theorem write_error {d : Destination} {value : Value} {s s' : State} {line : Nat} {r : Report}
    (h : d.write value s line = (.error r, s')) : s' = s := by
  unfold write at h
  split at h
  · split at h
    · exact (Prod.ext_iff.1 h).2.symm
    · split at h
      · exact (Prod.ext_iff.1 h).2.symm
      · cases (Prod.ext_iff.1 h).1
  · exact (Prod.ext_iff.1 h).2.symm
  · split at h
    · cases (Prod.ext_iff.1 h).1
    · exact (Prod.ext_iff.1 h).2.symm

end Destination

/-- The values of operand words, resolved from left to right. -/
def resolveAll (resolve : Resolver) : List String → Except Report (List Value)
  | [] => .ok []
  | token :: tokens =>
    match resolve token with
    | .error report => .error report
    | .ok v => (resolveAll resolve tokens).map (v :: ·)

/-- Carries out an arithmetic instruction whose operands are resolved by
`resolve`. -/
def executeWith (resolve : Resolver) : Handler := fun parts s =>
  match parts with
  | _ :: name :: destination :: operands =>
    match resolveAll resolve operands with
    | .error report => (.error report, s)
    | .ok values =>
      match evaluate name values s.line with
      | .error report => (.error report, s)
      | .ok value => (Destination.ofToken destination).write value s s.line
  | _ =>
    (.error (s.report .syntaxError
      "Invalid AMATH syntax. Expected 'AMATH <operation> <destination> [arg1] [arg2...]'."), s)

/-- Carries out an arithmetic instruction whose operands are resolved by the
state itself. -/
def execute : Handler := fun parts s => executeWith s.resolve parts s

/-- **A failed instruction leaves the state as it was.** -/
theorem executeWith_error {resolve : Resolver} {parts : List String} {s s' : State} {r : Report}
    (h : executeWith resolve parts s = (.error r, s')) : s' = s := by
  unfold executeWith at h
  split at h
  · split at h
    · exact (Prod.ext_iff.1 h).2.symm
    · split at h
      · exact (Prod.ext_iff.1 h).2.symm
      · exact Destination.write_error h
  · exact (Prod.ext_iff.1 h).2.symm

end RegisterMachine
