import WordMachine.Isa.Instruction

namespace WordMachine

/-! Faults that a program survives or halts on. They do not fail the step that
raises them. -/

inductive Diagnostic where
  | divideByZero (pc : Word)
  | unrecognized (pc : Word) (cause : DecodeError)
  deriving DecidableEq, Repr

namespace Diagnostic

def pc : Diagnostic → Word
  | .divideByZero pc => pc
  | .unrecognized pc _ => pc

def message : Diagnostic → String
  | .divideByZero pc => s!"Cannot divide by 0 (instruction at {pc.value})"
  | .unrecognized pc cause =>
      s!"Unrecognized instruction at {pc.value}: {cause.message}"

end Diagnostic

end WordMachine
