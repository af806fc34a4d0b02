/-
# The state of the machine

Registers and immutables are tables of values, stacks a table of sequences of
values whose last one is the top; one stack name may be selected, whether or
not such a stack exists. The position counts instructions from zero, lines from
one; both are 64-bit words, so the last position has no line of its own and the
count starts again. The host declares registers and stacks; instructions read
and overwrite what is declared.

Key definitions: `State`, `State.line`, `State.resolve`.
Key theorems: `State.line_of_lt`, `State.line_last`, `State.resolve_of_register`,
`State.resolve_of_immutable`.
-/
import RegisterMachine.Failure
import RegisterMachine.Literal
import RegisterMachine.Table

namespace RegisterMachine

/-- Registers, stacks and immutables of one run. -/
@[ext]
structure State where
  registers : Table Value
  «stacks» : Table (List Value)
  immutables : Table Value
  selected : Option String
  position : Nat
  deriving DecidableEq

/-- Finds the value that an operand word stands for. -/
abbrev Resolver := String → Except Report Value

namespace State

/-- The state in which nothing is declared. -/
def initial : State := ⟨.empty, .empty, .empty, none, 0⟩

/-- Declare a register, or overwrite it. -/
def declareRegister (s : State) (name : String) (value : Value) : State :=
  { s with registers := s.registers.insert name value }

/-- The state with some registers declared, all zero. -/
def withRegisters (names : List String) : State :=
  names.foldl (fun s name => s.declareRegister name (.ofInt 0)) initial

/-- Declare a stack. One that exists keeps what it holds. -/
def declareStack (s : State) (name : String) : State :=
  if s.stacks.contains name then s else { s with «stacks» := s.stacks.insert name [] }

/-- Select a stack by name, or none. -/
def select (s : State) (name : Option String) : State := { s with selected := name }

/-- Set an immutable. Only hosts and initializers do. -/
def setImmutable (s : State) (name : String) (value : Value) : State :=
  { s with immutables := s.immutables.insert name value }

/-- The line of the instruction being executed, counted from one in 64 bits: behind the
last position the count wraps to zero. -/
def line (s : State) : Nat := (s.position + 1) % 2 ^ 64

/-- A failure, reported on the current line. -/
def report (s : State) (kind : ErrorKind) (message : String) : Report := ⟨⟨kind, message⟩, s.line⟩

/-- The value of an operand word: a register, else an immutable, else a literal. -/
def resolve (s : State) : Resolver := fun token =>
  match s.registers.get? token with
  | some v => .ok v
  | none =>
    match s.immutables.get? token with
    | some v => .ok v
    | none =>
      match readLiteral? token with
      | some v => .ok v
      | none =>
        .error (s.report .nameError
          ("Undefined register, immutable or literal '" ++ token ++ "'."))

theorem line_of_lt {s : State} (h : s.position + 1 < 2 ^ 64) : s.line = s.position + 1 :=
  Nat.mod_eq_of_lt h

/-- The instruction at the last position is reported on line zero. -/
theorem line_last {s : State} (h : s.position + 1 = 2 ^ 64) : s.line = 0 := by
  rw [line, h, Nat.mod_self]

/-- A register takes precedence over an immutable and over a literal. -/
theorem resolve_of_register {s : State} {token : String} {v : Value}
    (h : s.registers.get? token = some v) : s.resolve token = .ok v := by
  simp [resolve, h]

theorem resolve_of_immutable {s : State} {token : String} {v : Value}
    (hr : s.registers.get? token = none) (hi : s.immutables.get? token = some v) :
    s.resolve token = .ok v := by
  simp [resolve, hr, hi]

end State

end RegisterMachine
