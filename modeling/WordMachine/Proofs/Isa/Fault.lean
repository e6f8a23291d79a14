import WordMachine.Proofs.Isa.Table

namespace WordMachine.Isa

/-! Steps that fail: on which addresses, and what they leave behind. -/

inductive Misses (state : Observation) : Instruction → Word → Prop
  | load {target operand : Register}
      (outside : ¬ (state.registers operand).InRange state.capacity) :
      Misses state ⟨.load, target, operand⟩ (state.registers operand)
  | loadc {target operand : Register}
      (outside : ¬ (state.pc + 1).InRange state.capacity) :
      Misses state ⟨.loadc, target, operand⟩ (state.pc + 1)
  | store {target operand : Register}
      (outside : ¬ (state.registers target).InRange state.capacity) :
      Misses state ⟨.store, target, operand⟩ (state.registers target)

/-- The first address outside memory that a step accesses. -/
inductive Offends (state : Observation) : Word → Prop
  | fetch (outside : ¬ state.pc.InRange state.capacity) :
      Offends state state.pc
  | execute {instruction : Instruction} {address : Word}
      (inside : state.pc.InRange state.capacity)
      (decoded : Instruction.decode (state.contents state.pc) = .ok instruction)
      (misses : Misses state instruction address) :
      Offends state address

theorem Executes.result_eq_error_iff {state : Observation} {word : Word}
    {instruction : Instruction} {outcome : Outcome} {error : MemoryError}
    (executes : Executes state word instruction outcome) :
    outcome.result = .error error ↔
      ∃ address, Misses state instruction address ∧
        error = .outOfRange address state.capacity := by
  constructor
  · intro failed
    cases executes with
    | loadFails outside =>
        exact ⟨_, .load outside, (Except.error.inj failed).symm⟩
    | loadcFails outside =>
        exact ⟨_, .loadc outside, (Except.error.inj failed).symm⟩
    | storeFails outside =>
        exact ⟨_, .store outside, (Except.error.inj failed).symm⟩
    | _ => cases failed
  · intro missed
    obtain ⟨address, misses, same⟩ := missed
    rw [same]
    cases misses with
    | load outside =>
        rw [executes.unique (.loadFails outside)]
        rfl
    | loadc outside =>
        rw [executes.unique (.loadcFails outside)]
        rfl
    | store outside =>
        rw [executes.unique (.storeFails outside)]
        rfl

theorem Steps.result_of_offends {state : Observation} {outcome : Outcome}
    {address : Word} (steps : Steps state outcome)
    (offends : Offends state address) :
    outcome.result = .error (.outOfRange address state.capacity) := by
  cases steps with
  | unmapped outside =>
      cases offends with
      | fetch => rfl
      | execute inside => exact absurd inside outside
  | undecodable inside undecodable =>
      cases offends with
      | fetch outside => exact absurd inside outside
      | execute _ decoded => cases decoded.symm.trans undecodable
  | executes inside decoded executes =>
      cases offends with
      | fetch outside => exact absurd inside outside
      | execute _ decoded' misses =>
          cases decoded.symm.trans decoded'
          exact executes.result_eq_error_iff.mpr ⟨address, misses, rfl⟩

theorem Steps.exists_offends {state : Observation} {outcome : Outcome}
    {error : MemoryError} (steps : Steps state outcome)
    (failed : outcome.result = .error error) :
    ∃ address, Offends state address ∧
      error = .outOfRange address state.capacity := by
  cases steps with
  | unmapped outside =>
      exact ⟨state.pc, .fetch outside, (Except.error.inj failed).symm⟩
  | undecodable => cases failed
  | executes inside decoded executes =>
      obtain ⟨address, misses, same⟩ := executes.result_eq_error_iff.mp failed
      exact ⟨address, .execute inside decoded misses, same⟩

section Step

variable {processor : Processor} {memory : Memory}

theorem result_eq_error_of_offends {address : Word}
    (offends : Offends (.of processor.cpu memory) address) :
    (processor.step memory).result =
      .error (.outOfRange address memory.capacity) :=
  (steps_observed processor memory).result_of_offends offends

theorem exists_offends_of_result_eq_error {error : MemoryError}
    (failed : (processor.step memory).result = .error error) :
    ∃ address, Offends (.of processor.cpu memory) address ∧
      error = .outOfRange address memory.capacity :=
  (steps_observed processor memory).exists_offends failed

theorem Offends.unique {first second : Word}
    (offends : Offends (.of processor.cpu memory) first)
    (offends' : Offends (.of processor.cpu memory) second) : first = second := by
  have failed := result_eq_error_of_offends offends
  rw [result_eq_error_of_offends offends'] at failed
  cases failed
  rfl

theorem step_of_result_eq_error {error : MemoryError}
    (failed : (processor.step memory).result = .error error) :
    processor.step memory = ⟨.error error, ⟨processor.cpu, none⟩, memory⟩ := by
  cases cycle : processor.cpu.cycle memory with
  | error cause =>
      have step := Processor.step_of_error cycle
      rw [step] at failed ⊢
      rw [show cause = error from Except.error.inj failed]
  | ok effect =>
      rw [Processor.step, cycle] at failed
      cases failed

end Step

/-- The outcome of the last of `count + 1` steps in a row. -/
def repeated (processor : Processor) (memory : Memory) : Nat → StepOutcome
  | 0 => processor.step memory
  | count + 1 =>
      let before := repeated processor memory count
      before.processor.step before.memory

private theorem step_of_cpu (cpu : Cpu) (memory : Memory)
    (first second : Option Diagnostic) :
    Processor.step ⟨cpu, first⟩ memory = Processor.step ⟨cpu, second⟩ memory :=
  rfl

private theorem repeated_of_result_eq_error {processor : Processor} {memory : Memory}
    {error : MemoryError}
    (failed : (processor.step memory).result = .error error) (count : Nat) :
    repeated processor memory count =
      ⟨.error error, ⟨processor.cpu, none⟩, memory⟩ := by
  induction count with
  | zero => exact step_of_result_eq_error failed
  | succ count induction =>
      simp only [repeated, induction]
      rw [step_of_cpu processor.cpu memory none processor.diagnostic]
      exact step_of_result_eq_error failed

/-- A step fails exactly when an access of it is outside memory, with the first
such address. It changes nothing then but the diagnostic, which it clears, and
every further step fails in the same way. -/
theorem failing_step_is_atomic (processor : Processor) (memory : Memory) :
    (∀ error, (processor.step memory).result = .error error ↔
      ∃ address, Offends (.of processor.cpu memory) address ∧
        error = .outOfRange address memory.capacity) ∧
    (∀ first second, Offends (.of processor.cpu memory) first →
      Offends (.of processor.cpu memory) second → first = second) ∧
    (∀ error, (processor.step memory).result = .error error →
      ∀ count, repeated processor memory count =
        ⟨.error error, ⟨processor.cpu, none⟩, memory⟩) := by
  refine ⟨?_, ?_, ?_⟩
  · intro error
    constructor
    · exact exists_offends_of_result_eq_error
    · intro offence
      obtain ⟨address, offends, same⟩ := offence
      rw [same]
      exact result_eq_error_of_offends offends
  · intro first second
    exact Offends.unique
  · intro error failed count
    exact repeated_of_result_eq_error failed count

end WordMachine.Isa
