import WordMachine.Proofs.Isa.Footprint

namespace WordMachine.Isa

/-! What a step raises. It is decided by the word at the program counter and, for a
division, by the divisor. -/

inductive Raises (state : Observation) : Diagnostic → Prop
  | divideByZero {target operand : Register}
      (fetches : state.Fetches ⟨.div, target, operand⟩)
      (zero : (state.registers operand).value = 0) :
      Raises state (.divideByZero state.pc)
  | unrecognized {cause : DecodeError} (inside : state.pc.InRange state.capacity)
      (undecodable : Instruction.decode (state.contents state.pc) = .error cause) :
      Raises state (.unrecognized state.pc cause)

theorem Executes.diagnostic_eq_some_iff {state : Observation} {word : Word}
    {target operand : Register} {opcode : Opcode} {outcome : Outcome}
    {diagnostic : Diagnostic}
    (executes : Executes state word ⟨opcode, target, operand⟩ outcome) :
    outcome.diagnostic = some diagnostic ↔
      opcode = .div ∧ (state.registers operand).value = 0 ∧
        diagnostic = .divideByZero state.pc := by
  constructor
  · intro raised
    cases executes with
    | divideByZero zero => exact ⟨rfl, zero, (Option.some.inj raised).symm⟩
    | _ => cases raised
  · intro divides
    obtain ⟨rfl, zero, rfl⟩ := divides
    rw [executes.unique (.divideByZero zero)]

/-- A step has the diagnostic that it raises, and none from before. -/
theorem Steps.diagnostic_eq_some_iff {state : Observation} {outcome : Outcome}
    {diagnostic : Diagnostic} (steps : Steps state outcome) :
    outcome.diagnostic = some diagnostic ↔ Raises state diagnostic := by
  cases steps with
  | unmapped outside =>
      constructor
      · intro raised
        cases raised
      · intro raises
        cases raises with
        | divideByZero fetches zero => exact absurd fetches.1 outside
        | unrecognized inside undecodable => exact absurd inside outside
  | undecodable inside undecodable =>
      constructor
      · intro raised
        cases raised
        exact .unrecognized inside undecodable
      · intro raises
        cases raises with
        | divideByZero fetches zero => cases undecodable.symm.trans fetches.2
        | unrecognized _ undecodable' =>
            cases undecodable.symm.trans undecodable'
            rfl
  | @executes instruction _ inside decoded executes =>
      obtain ⟨opcode, target, operand⟩ := instruction
      refine executes.diagnostic_eq_some_iff.trans ?_
      constructor
      · intro divides
        obtain ⟨rfl, zero, rfl⟩ := divides
        exact .divideByZero ⟨inside, decoded⟩ zero
      · intro raises
        cases raises with
        | divideByZero fetches zero =>
            cases decoded.symm.trans fetches.2
            exact ⟨rfl, zero, rfl⟩
        | unrecognized _ undecodable => cases decoded.symm.trans undecodable

section Step

variable {processor : Processor} {memory : Memory}

theorem diagnostic_of_result_eq_error {error : MemoryError}
    (failed : (processor.step memory).result = .error error) :
    (processor.step memory).processor.diagnostic = none := by
  rw [step_of_result_eq_error failed]

theorem diagnostic_step_eq_some_iff {diagnostic : Diagnostic} :
    (processor.step memory).processor.diagnostic = some diagnostic ↔
      Raises (.of processor.cpu memory) diagnostic :=
  (steps_observed processor memory).diagnostic_eq_some_iff

end Step

end WordMachine.Isa
