/-
# The arithmetic library

The library that brings the arithmetic instruction, and seven constants which
its initializer makes immutables.

Key definitions: `constants`, `installConstants`, `arithmeticLibrary`.
-/
import RegisterMachine.Library

namespace RegisterMachine

/-- The word the arithmetic instruction is called by. -/
def arithmeticInstruction : String := "AMATH"

/-- The constants, in order: pi, e, the Euler-Mascheroni constant, the golden
ratio, the speed of light, the gravitational constant and the reduced Planck
constant, to the digits written. -/
def constants : List (String × Binary64) :=
  [("+pi", .ofDecimal false ⟨314159, -5⟩),
    ("+e", .ofDecimal false ⟨271828, -5⟩),
    ("+y", .ofDecimal false ⟨57721, -5⟩),
    ("+gr", .ofDecimal false ⟨1618, -3⟩),
    ("+c", .ofDecimal false ⟨299792458, 0⟩),
    ("+g", .ofDecimal false ⟨66743, -15⟩),
    ("+h", .ofDecimal false ⟨1054571817, -43⟩)]

/-- Makes every constant an immutable. -/
def installConstants : Initializer := fun s =>
  constants.foldl (fun s e => s.setImmutable e.1 (.float e.2)) s

/-- The arithmetic instruction and its constants. -/
def arithmeticLibrary : Library :=
  ((Library.named "amath").withInstruction arithmeticInstruction execute).withInitializer
    installConstants

end RegisterMachine
