import WordMachine.Isa.Opcode

namespace WordMachine

inductive AssemblyError where
  | unknownMnemonic (token : Text)
  | argumentCount (opcode : Opcode) (found : Nat)
  | registerRange (operand : Text)
  | invalidConstant (token : Text)
  | unscanned (line : Text)
  deriving DecidableEq, Repr

/-- A line of a program text that has no meaning. Lines count from one. -/
structure SourceError where
  line : Nat
  cause : AssemblyError
  deriving DecidableEq, Repr

namespace AssemblyError

def message : AssemblyError → String
  | .unknownMnemonic token =>
      let name := String.ofList token
      s!"`{name}` is not an operation"
  | .argumentCount opcode found =>
      s!"{opcode.name} requires {opcode.arity} argument(s) but was given {found}"
  | .registerRange operand =>
      let name := String.ofList operand
      s!"invalid register value `{name}`: must be in range 0-7"
  | .invalidConstant token =>
      let name := String.ofList token
      s!"`{name}` is not a hexadecimal word"
  | .unscanned line =>
      let shown := String.ofList line
      s!"could not split line into tokens: `{shown}`"

end AssemblyError

namespace SourceError

def message (error : SourceError) : String :=
  s!"line {error.line}: {error.cause.message}"

end SourceError

end WordMachine
