/-
# Instructions of a host

A host brings instructions of its own beside the arithmetic one. These three
and the initializer are the least that show what a handler may do: nothing,
look at its words, read an operand, declare a register.

Key definitions: `Host.skip`, `Host.countOperands`, `Host.load`, `Host.seed`.
-/
import RegisterMachine.Library

namespace RegisterMachine.Host

/-- Does nothing. -/
def skip : Handler := fun _ s => (.ok (), s)

/-- Puts the number of operands into the register `argc`. -/
def countOperands : Handler := fun parts s =>
  (.ok (), s.declareRegister "argc" (.ofInt (parts.length - 1)))

/-- Puts the value of the last operand into the register `acc`. -/
def load : Handler := fun parts s =>
  match parts.drop 1 |>.getLast? with
  | none => (.error (s.report .syntaxError "LOAD needs an operand."), s)
  | some token =>
    match s.resolve token with
    | .error report => (.error report, s)
    | .ok value => (.ok (), s.declareRegister "acc" value)

/-- Makes the integer one an immutable. -/
def seed : Initializer := fun s => s.setImmutable "+one" (.ofInt 1)

end RegisterMachine.Host
