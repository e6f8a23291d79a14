import WordMachine.Assembly.Constant
import WordMachine.Assembly.Operand
import WordMachine.Assembly.Token
import WordMachine.Text.Lines

namespace WordMachine.Assembly

/-! A statement is a line with tokens. What it means depends on the region it
stands in: a `loadc` is followed by its constant, and a bare `halt` ends the
instructions and starts the data. -/

inductive Region where
  | instructions
  | constant
  | data
  deriving DecidableEq, Repr

structure Statement where
  line : Nat
  region : Region
  tokens : List Text
  deriving DecidableEq, Repr

def isHalt (token : Text) : Bool :=
  token.sameLetters Opcode.halt.mnemonic

/-- A `halt` without operands. -/
def endsInstructions : List Text → Bool
  | [token] => isHalt token
  | _ => false

def awaitsConstant : List Text → Bool
  | token :: _ => token.sameLetters Opcode.loadc.mnemonic
  | [] => false

namespace Region

/-- The region of the statement after one with these tokens. -/
def after : Region → List Text → Region
  | .data, _ => .data
  | .constant, _ => .instructions
  | .instructions, tokens =>
      if endsInstructions tokens then .data
      else if awaitsConstant tokens then .constant
      else .instructions

@[simp] theorem after_data (tokens : List Text) : after .data tokens = .data := rfl

@[simp] theorem after_constant (tokens : List Text) :
    after .constant tokens = .instructions := rfl

end Region

/-- The one constant of a line that may hold nothing else. -/
def soleConstant : List Text → Except AssemblyError Word
  | [token] => constant token
  | tokens => .error (.invalidConstant (Text.unwords tokens))

def dataWord : List Text → Except AssemblyError Word
  | [token] => if isHalt token then .ok 0 else constant token
  | tokens => soleConstant tokens

def instructionWord (opcode : Opcode) (operands : List Text) :
    Except AssemblyError Word :=
  (instruction opcode operands).map Instruction.encode

/-- A lone token is a constant unless it spells an operation, and then it lacks
its operands. -/
def instructionLine : List Text → Except AssemblyError Word
  | [] => soleConstant []
  | [token] =>
      if isHalt token then .ok 0
      else
        match Opcode.ofMnemonic? token with
        | some opcode => instructionWord opcode []
        | none => constant token
  | mnemonic :: operands =>
      match Opcode.ofMnemonic? mnemonic with
      | some opcode => instructionWord opcode operands
      | none => .error (.unknownMnemonic mnemonic)

namespace Statement

def word (statement : Statement) : Except AssemblyError Word :=
  match statement.region with
  | .instructions => instructionLine statement.tokens
  | .constant => soleConstant statement.tokens
  | .data => dataWord statement.tokens

/-- The word of a statement, with failures placed at its line. -/
def locatedWord (statement : Statement) : Except SourceError Word :=
  statement.word.mapError fun cause => ⟨statement.line, cause⟩

end Statement

/-- The lines with tokens, each in its region. -/
def statementsFrom : Region → List (Text × Nat) → List Statement
  | _, [] => []
  | region, (line, number) :: rest =>
      match tokens line with
      | [] => statementsFrom region rest
      | found => ⟨number, region, found⟩ :: statementsFrom (region.after found) rest

def statements (text : Text) : List Statement :=
  statementsFrom .instructions (Text.numberedLines text)

@[simp] theorem statementsFrom_nil (region : Region) :
    statementsFrom region [] = [] := rfl

theorem statementsFrom_blank (region : Region) {line : Text} (number : Nat)
    (rest : List (Text × Nat)) (blank : tokens line = []) :
    statementsFrom region ((line, number) :: rest) = statementsFrom region rest := by
  simp [statementsFrom, blank]

theorem statementsFrom_cons (region : Region) {line : Text} (number : Nat)
    (rest : List (Text × Nat)) (present : tokens line ≠ []) :
    statementsFrom region ((line, number) :: rest) =
      ⟨number, region, tokens line⟩ ::
        statementsFrom (region.after (tokens line)) rest := by
  simp [statementsFrom]

end WordMachine.Assembly
