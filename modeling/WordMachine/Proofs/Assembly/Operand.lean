import WordMachine.Proofs.Assembly.Line

namespace WordMachine.Assembly

open Numeral

/-! Which operands an operation takes, what is wrong with others, and what becomes
of them in the word of the instruction. -/

/-- A decimal number of one of the eight registers, which may carry a sign. -/
def IsRegister (operand : Text) : Prop :=
  ∃ number, Signed operand number ∧ 0 ≤ number ∧ number ≤ 7

variable {opcode : Opcode} {operand : Text} {operands : List Text}

theorem exists_register_eq_ok_iff :
    (∃ found, register operand = .ok found) ↔ IsRegister operand := by
  simp only [register_eq_ok_iff, names_iff_signed]
  constructor
  · rintro ⟨found, spelled⟩
    exact ⟨found.val, spelled, by omega, by omega⟩
  · rintro ⟨number, spelled, low, high⟩
    refine ⟨⟨number.toNat, by omega⟩, ?_⟩
    rwa [Int.toNat_of_nonneg low]

theorem register_eq_error_iff {error : AssemblyError} :
    register operand = .error error ↔
      ¬ IsRegister operand ∧ error = .registerRange operand := by
  rw [← exists_register_eq_ok_iff, register]
  cases register? operand with
  | none => simp [eq_comm]
  | some found => simp

def FirstBad (operands : List Text) (operand : Text) : Prop :=
  ∃ index, operands[index]? = some operand ∧ ¬ IsRegister operand ∧
    ∀ earlier ∈ operands.take index, IsRegister earlier

theorem mapM_register_eq_error_iff {error : AssemblyError} :
    operands.mapM register = .error error ↔
      ∃ operand, FirstBad operands operand ∧ error = .registerRange operand := by
  simp only [mapM_eq_error_iff, exists_register_eq_ok_iff, register_eq_error_iff]
  constructor
  · rintro ⟨index, operand, found, ⟨bad, rfl⟩, before⟩
    exact ⟨operand, ⟨index, found, bad, before⟩, rfl⟩
  · rintro ⟨operand, ⟨index, found, bad, before⟩, rfl⟩
    exact ⟨index, operand, found, ⟨bad, rfl⟩, before⟩

theorem instructionWord_eq_error_iff {error : AssemblyError} :
    instructionWord opcode operands = .error error ↔
      instruction opcode operands = .error error := by
  rw [instructionWord]
  cases instruction opcode operands with
  | error cause => simp [Except.map]
  | ok found => simp [Except.map]

theorem instruction_eq_error_iff {error : AssemblyError} :
    instruction opcode operands = .error error ↔
      (operands.length ≠ opcode.arity ∧
          error = .argumentCount opcode operands.length) ∨
        operands.length = opcode.arity ∧ operands.mapM register = .error error := by
  unfold instruction
  by_cases count : operands.length = opcode.arity
  · rw [if_pos count]
    cases operands.mapM register with
    | error cause => simp [count]
    | ok registers => simp [count]
  · rw [if_neg count]
    simp [count, eq_comm]

theorem exists_instructionWord_eq_ok_iff :
    (∃ word, instructionWord opcode operands = .ok word) ↔
      operands.length = opcode.arity ∧ ∀ operand ∈ operands, IsRegister operand := by
  have registers := @exists_mapM_eq_ok_iff _ _ _ register operands
  simp only [exists_register_eq_ok_iff] at registers
  rw [← registers, instructionWord, instruction]
  by_cases count : operands.length = opcode.arity
  · rw [if_pos count]
    cases operands.mapM register with
    | error cause => simp [Except.map]
    | ok found => simp [Except.map, count]
  · rw [if_neg count]
    simp [Except.map, count]

private theorem registers_of_instruction {decoded : Instruction}
    (read : instruction opcode operands = .ok decoded) :
    decoded.opcode = opcode ∧
      (∃ first, operands[0]? = some first ∧
        Signed first (decoded.target.val : Int)) ∧
      (opcode.arity = 1 → decoded.operand = 0) ∧
      (opcode.arity = 2 → ∃ second, operands[1]? = some second ∧
        Signed second (decoded.operand.val : Int)) := by
  obtain ⟨registers, count, named, rfl⟩ := instruction_eq_ok_iff.mp read
  rcases arity_eq_one_or_two opcode with one | two
  · rw [one, List.length_eq_one_iff] at count
    obtain ⟨first, rfl⟩ := count
    obtain ⟨target, rest, head, tail, rfl⟩ :=
      List.forall₂_cons_left_iff.mp named
    cases tail
    refine ⟨rfl, ⟨first, rfl, names_iff_signed.mp head⟩, fun _ => rfl, ?_⟩
    intro two
    rw [one] at two
    cases two
  · rw [two, List.length_eq_two] at count
    obtain ⟨first, second, rfl⟩ := count
    obtain ⟨target, rest, head, tail, rfl⟩ :=
      List.forall₂_cons_left_iff.mp named
    obtain ⟨operand, rest', head', tail', rfl⟩ :=
      List.forall₂_cons_left_iff.mp tail
    cases tail'
    refine ⟨rfl, ⟨first, rfl, names_iff_signed.mp head⟩, ?_,
      fun _ => ⟨second, rfl, names_iff_signed.mp head'⟩⟩
    intro one
    rw [two] at one
    cases one

private theorem getLsbD_encode (decoded : Instruction) {bit : Nat} (high : 12 ≤ bit) :
    decoded.encode.getLsbD bit = false := by
  have opcodeBound := decoded.opcode.code.isLt
  have targetBound := decoded.target.isLt
  have operandBound := decoded.operand.isLt
  have small : decoded.encode.toNat < 2 ^ 12 := by
    rw [Instruction.toNat_encode]
    omega
  exact Nat.testBit_lt_two_pow
    (Nat.lt_of_lt_of_le small (Nat.pow_le_pow_right (by decide) high))

/-- The number of operands comes first: a wrong one is an error whatever the
operands are, and names the number that the operation takes. Then every operand
has to be a number of a register, and the first that is not is named. The word of
an instruction has its lowest twelve bits only and is decoded to the operation and
the registers that were written. -/
theorem operands_are_checked_and_encoded (opcode : Opcode) (operands : List Text) :
    (∀ error, instructionWord opcode operands = .error error ↔
      (operands.length ≠ opcode.arity ∧
          error = .argumentCount opcode operands.length) ∨
        operands.length = opcode.arity ∧
          ∃ operand, FirstBad operands operand ∧ error = .registerRange operand) ∧
    (∀ found, AssemblyError.message (.argumentCount opcode found) =
      s!"{opcode.name} requires {opcode.arity} argument(s) but was given {found}") ∧
    ((∃ word, instructionWord opcode operands = .ok word) ↔
      operands.length = opcode.arity ∧ ∀ operand ∈ operands, IsRegister operand) ∧
    ∀ word, instructionWord opcode operands = .ok word →
      (∀ bit, 12 ≤ bit → word.getLsbD bit = false) ∧
      ∃ target operand : Register,
        Instruction.decode word = .ok ⟨opcode, target, operand⟩ ∧
        (∃ first, operands[0]? = some first ∧ Signed first (target.val : Int)) ∧
        (opcode = .loadc → operand = 0) ∧
        (opcode ≠ .loadc → ∃ second, operands[1]? = some second ∧
          Signed second (operand.val : Int)) := by
  refine ⟨?_, fun _ => rfl, exists_instructionWord_eq_ok_iff, ?_⟩
  · intro error
    rw [instructionWord_eq_error_iff, instruction_eq_error_iff,
      mapM_register_eq_error_iff]
  · intro word assembled
    obtain ⟨decoded, read, held⟩ := instructionWord_eq_ok_iff.mp assembled
    rw [Content.occupies_instruction_iff] at held
    subst held
    obtain ⟨rfl, first, single, second⟩ := registers_of_instruction read
    refine ⟨fun bit high => getLsbD_encode decoded high, decoded.target,
      decoded.operand, decoded.decode_encode, first, ?_, ?_⟩
    · intro loadc
      exact single (by rw [loadc]; rfl)
    · intro other
      exact second (Opcode.arity_of_ne_loadc other)

end WordMachine.Assembly
