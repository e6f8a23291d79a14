import WordMachine.Assembly.Error
import WordMachine.Isa.Instruction
import WordMachine.Text.Numeral

namespace WordMachine.Assembly

/-! Operands are decimal register numbers. The number of operands is checked
before any of them is read. -/

def register? (operand : Text) : Option Register :=
  match Numeral.signed? operand with
  | some value => if 0 ≤ value then Register.ofIndex? value.toNat else none
  | none => none

def register (operand : Text) : Except AssemblyError Register :=
  match register? operand with
  | some found => .ok found
  | none => .error (.registerRange operand)

def instruction (opcode : Opcode) (operands : List Text) :
    Except AssemblyError Instruction :=
  if operands.length = opcode.arity then
    match operands.mapM register with
    | .ok registers => .ok ⟨opcode, registers.getD 0 0, registers.getD 1 0⟩
    | .error cause => .error cause
  else
    .error (.argumentCount opcode operands.length)

end WordMachine.Assembly
