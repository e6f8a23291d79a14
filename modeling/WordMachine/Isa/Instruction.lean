import WordMachine.Isa.Opcode
import WordMachine.Isa.Register
import WordMachine.Word

namespace WordMachine

/-! An instruction occupies the low twelve bits of a word: four for the
operation and four for each of two registers. All other bits are reserved. -/

structure Instruction where
  opcode : Opcode
  target : Register
  operand : Register
  deriving DecidableEq, Repr

inductive DecodeError where
  | reservedBits (word : Word)
  | noSuchRegister (word : Word) (index : Nat)
  | noSuchOpcode (code : Nat)
  deriving DecidableEq, Repr

namespace DecodeError

def message : DecodeError → String
  | .reservedBits word => s!"reserved bits are set in {word.literal}"
  | .noSuchRegister word index =>
      s!"{word.literal} names register {index}, but only registers 0-7 exist"
  | .noSuchOpcode code => s!"{code} is not an opcode"

end DecodeError

namespace Instruction

def encode (instruction : Instruction) : Word :=
  BitVec.ofNat 32 (256 * instruction.opcode.code.val +
    16 * instruction.target.val + instruction.operand.val)

def decode (word : Word) : Except DecodeError Instruction :=
  let bits := word.toNat
  if 4096 ≤ bits then
    .error (.reservedBits word)
  else
    match Opcode.ofCode? (bits / 256 % 16), Register.ofIndex? (bits / 16 % 16),
        Register.ofIndex? (bits % 16) with
    | none, _, _ => .error (.noSuchOpcode (bits / 256 % 16))
    | some _, none, _ => .error (.noSuchRegister word (bits / 16 % 16))
    | some _, some _, none => .error (.noSuchRegister word (bits % 16))
    | some opcode, some target, some operand => .ok ⟨opcode, target, operand⟩

/-- The instruction as a line of assembly. -/
def text (instruction : Instruction) : String :=
  match instruction.opcode.arity with
  | 1 => s!"{instruction.opcode.name} {instruction.target.text}"
  | _ =>
      s!"{instruction.opcode.name} {instruction.target.text} {instruction.operand.text}"

theorem toNat_encode (instruction : Instruction) :
    instruction.encode.toNat = 256 * instruction.opcode.code.val +
      16 * instruction.target.val + instruction.operand.val := by
  have opcodeBound := instruction.opcode.code.isLt
  have targetBound := instruction.target.isLt
  have operandBound := instruction.operand.isLt
  simp only [encode, BitVec.toNat_ofNat]
  omega

@[simp] theorem decode_encode (instruction : Instruction) :
    decode instruction.encode = .ok instruction := by
  have opcodeBound := instruction.opcode.code.isLt
  have targetBound := instruction.target.isLt
  have operandBound := instruction.operand.isLt
  have bits := toNat_encode instruction
  have target : instruction.encode.toNat / 16 % 16 = instruction.target.val := by
    omega
  have operand : instruction.encode.toNat % 16 = instruction.operand.val := by
    omega
  have code : instruction.encode.toNat / 256 % 16 = instruction.opcode.code.val := by
    omega
  have small : ¬ 4096 ≤ instruction.encode.toNat := by omega
  simp only [decode, small, if_false, target, operand, Register.ofIndex?_val,
    code, Opcode.ofCode?_val, Opcode.ofCode_code]

end Instruction

end WordMachine
