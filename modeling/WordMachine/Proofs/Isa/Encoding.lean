import Mathlib.Data.Nat.Bitwise
import WordMachine.Isa.Instruction

namespace WordMachine

/-! The words that are instructions, by their bits: which fields they have, and why
all other words are refused. -/

namespace Word

def field (word : Word) (place : Nat) : Nat :=
  (word.extractLsb' place 4).toNat

/-- A bit is set that no instruction uses. -/
def HasReserved (word : Word) : Prop :=
  ∃ bit, 12 ≤ bit ∧ bit < 32 ∧ word.getLsbD bit = true

variable {word : Word}

theorem field_eq (word : Word) (place : Nat) :
    word.field place = word.toNat / 2 ^ place % 16 := by
  rw [field, BitVec.extractLsb'_toNat, Nat.shiftRight_eq_div_pow]

theorem field_lt (word : Word) (place : Nat) : word.field place < 16 :=
  (word.extractLsb' place 4).isLt

theorem hasReserved_iff : word.HasReserved ↔ 4096 ≤ word.toNat := by
  constructor
  · rintro ⟨bit, above, _, set⟩
    have places : 2 ^ 12 ≤ 2 ^ bit := Nat.pow_le_pow_right (by decide) above
    exact Nat.le_trans places (Nat.ge_two_pow_of_testBit set)
  · intro large
    have power : 2 ^ 12 ≤ word.toNat := large
    obtain ⟨bit, above, set⟩ := Nat.exists_ge_and_testBit_of_ge_two_pow power
    refine ⟨bit, above, ?_, set⟩
    by_contra beyond
    rw [BitVec.testBit_toNat, BitVec.getLsbD_of_ge word bit (by omega)] at set
    cases set

private theorem toNat_of_not_hasReserved (clear : ¬ word.HasReserved) :
    word.toNat = 256 * word.field 8 + 16 * word.field 4 + word.field 0 := by
  rw [hasReserved_iff] at clear
  rw [field_eq, field_eq, field_eq]
  omega

end Word

namespace Instruction

variable {word : Word} {instruction : Instruction}

structure Fills (instruction : Instruction) (word : Word) : Prop where
  clear : ¬ word.HasReserved
  opcode : word.field 8 = instruction.opcode.code.val
  target : word.field 4 = instruction.target.val
  operand : word.field 0 = instruction.operand.val

theorem fills_iff : instruction.Fills word ↔ word = instruction.encode := by
  have opcodeBound := instruction.opcode.code.isLt
  have targetBound := instruction.target.isLt
  have operandBound := instruction.operand.isLt
  constructor
  · intro fills
    rw [← BitVec.toNat_inj, toNat_encode, Word.toNat_of_not_hasReserved fills.clear,
      fills.opcode, fills.target, fills.operand]
  · rintro rfl
    refine ⟨?_, ?_, ?_, ?_⟩
    · rw [Word.hasReserved_iff, toNat_encode]
      omega
    all_goals
      rw [Word.field_eq, toNat_encode]
      omega

/-- Why a word is no instruction. The first register is looked at before the
second. -/
inductive Refused (word : Word) : DecodeError → Prop
  | reserved (set : word.HasReserved) : Refused word (.reservedBits word)
  | target (clear : ¬ word.HasReserved) (outside : 8 ≤ word.field 4) :
      Refused word (.noSuchRegister word (word.field 4))
  | operand (clear : ¬ word.HasReserved) (inside : word.field 4 < 8)
      (outside : 8 ≤ word.field 0) :
      Refused word (.noSuchRegister word (word.field 0))

theorem decode_of_fills (fills : instruction.Fills word) :
    decode word = .ok instruction := by
  rw [fills_iff.mp fills, decode_encode]

theorem decode_of_refused {error : DecodeError} (refused : Refused word error) :
    decode word = .error error := by
  have target : word.toNat / 16 % 16 = word.field 4 := (word.field_eq 4).symm
  have operand : word.toNat % 16 = word.field 0 := by
    rw [word.field_eq 0, Nat.pow_zero, Nat.div_one]
  have opcode : Opcode.ofCode? (word.toNat / 256 % 16) =
      some (.ofCode ⟨_, word.field_lt 8⟩) := by
    rw [← Opcode.ofCode?_val]
    exact congrArg Opcode.ofCode? (word.field_eq 8).symm
  cases refused with
  | reserved set => rw [decode, if_pos (Word.hasReserved_iff.mp set)]
  | target clear outside =>
      rw [decode, if_neg (Word.hasReserved_iff.not.mp clear), opcode, target, operand,
        Register.ofIndex?_eq_none_iff.mpr outside]
  | operand clear inside outside =>
      rw [decode, if_neg (Word.hasReserved_iff.not.mp clear), opcode, target, operand,
        Register.ofIndex?_eq_none_iff.mpr outside, Register.ofIndex?, dif_pos inside]

theorem fills_or_refused (word : Word) :
    (∃ instruction : Instruction, instruction.Fills word) ∨
      ∃ error, Refused word error := by
  by_cases set : word.HasReserved
  · exact .inr ⟨_, .reserved set⟩
  · by_cases first : word.field 4 < 8
    · by_cases second : word.field 0 < 8
      · exact .inl ⟨⟨.ofCode ⟨word.field 8, word.field_lt 8⟩, ⟨_, first⟩, ⟨_, second⟩⟩,
          set, by rw [Opcode.code_ofCode], rfl, rfl⟩
      · exact .inr ⟨_, .operand set first (Nat.le_of_not_lt second)⟩
    · exact .inr ⟨_, .target set (Nat.le_of_not_lt first)⟩

theorem decode_eq_ok_iff : decode word = .ok instruction ↔ instruction.Fills word := by
  refine ⟨?_, decode_of_fills⟩
  intro decoded
  rcases fills_or_refused word with ⟨found, fills⟩ | ⟨error, refused⟩
  · rw [decode_of_fills fills] at decoded
    cases decoded
    exact fills
  · rw [decode_of_refused refused] at decoded
    cases decoded

theorem decode_eq_error_iff {error : DecodeError} :
    decode word = .error error ↔ Refused word error := by
  refine ⟨?_, decode_of_refused⟩
  intro failed
  rcases fills_or_refused word with ⟨found, fills⟩ | ⟨found, refused⟩
  · rw [decode_of_fills fills] at failed
    cases failed
  · rw [decode_of_refused refused] at failed
    cases failed
    exact refused

/-- Decoding inverts encoding: the words of instructions are decoded to them, and
all other words are refused, for reserved bits before all else and then for the
first field that numbers no register. Whatever the bits of the third field are,
they name an operation. -/
theorem decode_inverts_encode (word : Word) :
    (∀ instruction, decode word = .ok instruction ↔ word = instruction.encode) ∧
    (∀ first second : Instruction,
      word = first.encode → word = second.encode → first = second) ∧
    (∀ instruction : Instruction,
      word = instruction.encode ↔ instruction.Fills word) ∧
    (∀ error, decode word = .error error ↔ Refused word error) ∧
    ∃ opcode, Opcode.ofCode? (word.field 8) = some opcode ∧
      ∀ instruction, decode word = .ok instruction → instruction.opcode = opcode := by
  refine ⟨?_, ?_, fun _ => fills_iff.symm, fun _ => decode_eq_error_iff, ?_⟩
  · intro instruction
    rw [decode_eq_ok_iff, fills_iff]
  · intro first second same same'
    have decoded := decode_encode first
    rw [← same, same', decode_encode] at decoded
    exact (Except.ok.inj decoded).symm
  · let code : Fin 16 := ⟨word.field 8, word.field_lt 8⟩
    refine ⟨.ofCode code, Opcode.ofCode?_val code, ?_⟩
    intro instruction decoded
    have same : code = instruction.opcode.code :=
      Fin.ext (decode_eq_ok_iff.mp decoded).opcode
    rw [same, Opcode.ofCode_code]

example : decode 0x0F98 = .error (.noSuchRegister 0x0F98 9) := rfl

end Instruction

end WordMachine
