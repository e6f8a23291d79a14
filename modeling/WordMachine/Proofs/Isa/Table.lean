import Mathlib.Logic.Function.Basic
import WordMachine.Processor
import WordMachine.Proofs.Isa.Arithmetic
import WordMachine.Proofs.Memory.Access

namespace WordMachine.Isa

/-! The table of operations, over what a program can observe of a processor and
its memory. Cells are indexed from zero. -/

@[ext] structure Observation where
  registers : Register → Word
  pc : Word
  ir : Word
  capacity : Nat
  cells : Nat → Word

namespace Observation

def of (cpu : Cpu) (memory : Memory) : Observation where
  registers := cpu.get
  pc := cpu.pc
  ir := cpu.ir
  capacity := memory.capacity
  cells := memory.cell

def contents (state : Observation) (address : Word) : Word :=
  state.cells address.value.toNat

def fetched (state : Observation) (word : Word) : Observation :=
  { state with pc := state.pc + 1, ir := word }

def assign (state : Observation) (register : Register) (word : Word) :
    Observation :=
  { state with registers := Function.update state.registers register word }

def store (state : Observation) (address word : Word) : Observation :=
  { state with cells := Function.update state.cells address.value.toNat word }

def jump (state : Observation) (address : Word) : Observation :=
  { state with pc := address }

end Observation

structure Outcome where
  result : Except MemoryError Status
  diagnostic : Option Diagnostic
  after : Observation

namespace Outcome

def completed (after : Observation) : Outcome :=
  ⟨.ok .running, none, after⟩

def failed (before : Observation) (address : Word) : Outcome :=
  ⟨.error (.outOfRange address before.capacity), none, before⟩

end Outcome

/-- The table. Its rules read the registers as they were before the step; `word`
is the word that was fetched. -/
inductive Executes (state : Observation) (word : Word) :
    Instruction → Outcome → Prop
  | halt {target operand : Register} :
      Executes state word ⟨.halt, target, operand⟩
        ⟨.ok .halted, none, state.fetched word⟩
  | load {target operand : Register}
      (inside : (state.registers operand).InRange state.capacity) :
      Executes state word ⟨.load, target, operand⟩ (.completed
        ((state.fetched word).assign target
          (state.contents (state.registers operand))))
  | loadFails {target operand : Register}
      (outside : ¬ (state.registers operand).InRange state.capacity) :
      Executes state word ⟨.load, target, operand⟩
        (.failed state (state.registers operand))
  | loadc {target operand : Register}
      (inside : (state.pc + 1).InRange state.capacity) :
      Executes state word ⟨.loadc, target, operand⟩ (.completed
        (((state.fetched (state.contents (state.pc + 1))).jump
          (state.pc + 2)).assign target (state.contents (state.pc + 1))))
  | loadcFails {target operand : Register}
      (outside : ¬ (state.pc + 1).InRange state.capacity) :
      Executes state word ⟨.loadc, target, operand⟩
        (.failed state (state.pc + 1))
  | store {target operand : Register}
      (inside : (state.registers target).InRange state.capacity) :
      Executes state word ⟨.store, target, operand⟩ (.completed
        ((state.fetched word).store (state.registers target)
          (state.registers operand)))
  | storeFails {target operand : Register}
      (outside : ¬ (state.registers target).InRange state.capacity) :
      Executes state word ⟨.store, target, operand⟩
        (.failed state (state.registers target))
  | divideByZero {target operand : Register}
      (zero : (state.registers operand).value = 0) :
      Executes state word ⟨.div, target, operand⟩
        ⟨.ok .running, some (.divideByZero state.pc), state.fetched word⟩
  | jump {target operand : Register}
      (nonzero : (state.registers target).value ≠ 0) :
      Executes state word ⟨.if, target, operand⟩ (.completed
        ((state.fetched word).jump (state.registers operand)))
  | pass {target operand : Register}
      (zero : (state.registers target).value = 0) :
      Executes state word ⟨.if, target, operand⟩
        (.completed (state.fetched word))
  | compute {opcode : Opcode} {target operand : Register} {result : Word}
      (computes : Computes (state.registers target) (state.registers operand)
        opcode result) :
      Executes state word ⟨opcode, target, operand⟩
        (.completed ((state.fetched word).assign target result))

theorem Executes.unique {state : Observation} {word : Word}
    {instruction : Instruction} {first second : Outcome}
    (executes : Executes state word instruction first)
    (executes' : Executes state word instruction second) : first = second := by
  cases executes with
  | halt =>
      cases executes' with
      | halt => rfl
      | compute computes => cases computes
  | load inside =>
      cases executes' with
      | load => rfl
      | loadFails outside => exact absurd inside outside
      | compute computes => cases computes
  | loadFails outside =>
      cases executes' with
      | load inside => exact absurd inside outside
      | loadFails => rfl
      | compute computes => cases computes
  | loadc inside =>
      cases executes' with
      | loadc => rfl
      | loadcFails outside => exact absurd inside outside
      | compute computes => cases computes
  | loadcFails outside =>
      cases executes' with
      | loadc inside => exact absurd inside outside
      | loadcFails => rfl
      | compute computes => cases computes
  | store inside =>
      cases executes' with
      | store => rfl
      | storeFails outside => exact absurd inside outside
      | compute computes => cases computes
  | storeFails outside =>
      cases executes' with
      | store inside => exact absurd inside outside
      | storeFails => rfl
      | compute computes => cases computes
  | divideByZero zero =>
      cases executes' with
      | divideByZero => rfl
      | compute computes => exact absurd zero computes.divisor_ne_zero
  | jump nonzero =>
      cases executes' with
      | jump => rfl
      | pass zero => exact absurd zero nonzero
      | compute computes => cases computes
  | pass zero =>
      cases executes' with
      | jump nonzero => exact absurd zero nonzero
      | pass => rfl
      | compute computes => cases computes
  | compute computes =>
      cases executes' with
      | divideByZero zero => exact absurd zero computes.divisor_ne_zero
      | compute computes' => rw [computes.unique computes']
      | _ => cases computes

theorem Executes.iff_eq {state : Observation} {word : Word}
    {instruction : Instruction} {outcome : Outcome}
    (executes : Executes state word instruction outcome) (other : Outcome) :
    Executes state word instruction other ↔ other = outcome := by
  constructor
  · intro executes'
    exact executes'.unique executes
  · intro same
    rw [same]
    exact executes

/-- What can be observed of a step. -/
def observed (outcome : StepOutcome) : Outcome where
  result := outcome.result
  diagnostic := outcome.processor.diagnostic
  after := .of outcome.processor.cpu outcome.memory

theorem Observation.of_set (cpu : Cpu) (memory : Memory) (register : Register)
    (word : Word) :
    Observation.of (cpu.set register word) memory =
      (Observation.of cpu memory).assign register word := by
  apply Observation.ext
  case registers =>
    funext other
    by_cases same : other = register
    · subst same
      simp [of, assign]
    · simp [of, assign, Function.update_of_ne same,
        Cpu.get_set_of_ne cpu word same]
  all_goals rfl

theorem Observation.of_fetched_fetched (cpu : Cpu) (memory : Memory)
    (word constant : Word) :
    Observation.of ((cpu.fetched word).fetched constant) memory =
      ((Observation.of cpu memory).fetched constant).jump (cpu.pc + 2) := by
  apply Observation.ext
  case pc => exact BitVec.add_assoc cpu.pc 1 1
  all_goals rfl

theorem Observation.of_store (cpu : Cpu) (memory : Memory)
    (index : Fin memory.capacity) (address word : Word)
    (located : index.val = address.value.toNat) :
    Observation.of cpu (memory.set index word) =
      (Observation.of cpu memory).store address word := by
  apply Observation.ext
  case cells =>
    funext other
    simp only [of, store, Memory.cell_set, Function.update_apply, located]
  all_goals rfl

section Step

variable {processor : Processor} {memory : Memory}

theorem observed_of_error {address : Word}
    (failed : processor.cpu.cycle memory =
      .error (.outOfRange address memory.capacity)) :
    observed (processor.step memory) =
      .failed (.of processor.cpu memory) address := by
  rw [Processor.step_of_error failed]
  rfl

theorem observed_of_ok {status : Status} {cpu : Cpu}
    {diagnostic : Option Diagnostic}
    (completed : processor.cpu.cycle memory =
      .ok ⟨status, cpu, none, diagnostic⟩) :
    observed (processor.step memory) =
      ⟨.ok status, diagnostic, .of cpu memory⟩ := by
  rw [Processor.step, completed]
  rfl

private theorem observed_of_stored {status : Status} {cpu : Cpu}
    {diagnostic : Option Diagnostic} {index : Fin memory.capacity} {word : Word}
    (completed : processor.cpu.cycle memory =
      .ok ⟨status, cpu, some (index, word), diagnostic⟩) :
    observed (processor.step memory) =
      ⟨.ok status, diagnostic, .of cpu (memory.set index word)⟩ := by
  rw [Processor.step, completed]
  rfl

private theorem cycle_of_decode {cpu : Cpu} {word : Word} {instruction : Instruction}
    (fetched : memory.read cpu.pc = .ok word)
    (decoded : Instruction.decode word = .ok instruction) :
    cpu.cycle memory = (cpu.fetched word).execute memory cpu.pc instruction := by
  simp only [Cpu.cycle, fetched, decoded]

private theorem executes_of_assign {word result : Word} {opcode : Opcode}
    {target operand : Register}
    (completed : processor.cpu.cycle memory =
      .ok (.assign (processor.cpu.fetched word) target result))
    (computes : Computes (processor.cpu.get target) (processor.cpu.get operand)
      opcode result) :
    Executes (.of processor.cpu memory) word ⟨opcode, target, operand⟩
      (observed (processor.step memory)) := by
  rw [observed_of_ok completed, Observation.of_set]
  exact .compute computes

/-- A step on an instruction does what the table says, whatever the state. -/
theorem executes_step {word : Word} {instruction : Instruction}
    (fetched : memory.read processor.cpu.pc = .ok word)
    (decoded : Instruction.decode word = .ok instruction) :
    Executes (.of processor.cpu memory) word instruction
      (observed (processor.step memory)) := by
  obtain ⟨opcode, target, operand⟩ := instruction
  have cycle := cycle_of_decode fetched decoded
  cases opcode with
  | halt =>
      rw [observed_of_ok cycle]
      exact .halt
  | load =>
      by_cases inside :
        (processor.cpu.get operand).InRange memory.capacity
      · simp only [Cpu.execute, Cpu.get_fetched,
          Memory.read_of_inRange inside] at cycle
        rw [observed_of_ok cycle, Observation.of_set]
        exact .load inside
      · simp only [Cpu.execute, Cpu.get_fetched,
          Memory.read_of_not_inRange inside] at cycle
        rw [observed_of_error cycle]
        exact .loadFails inside
  | loadc =>
      by_cases inside : (processor.cpu.fetched word).pc.InRange memory.capacity
      · simp only [Cpu.execute, Memory.read_of_inRange inside] at cycle
        rw [observed_of_ok cycle, Observation.of_set,
          Observation.of_fetched_fetched]
        exact .loadc inside
      · simp only [Cpu.execute, Memory.read_of_not_inRange inside] at cycle
        rw [observed_of_error cycle]
        exact .loadcFails inside
  | store =>
      by_cases inside :
        (processor.cpu.get target).InRange memory.capacity
      · obtain ⟨index, located, same⟩ := Memory.locate_of_inRange inside
        simp only [Cpu.execute, Cpu.get_fetched, located] at cycle
        rw [observed_of_stored cycle, Observation.of_store _ _ _ _ _ same]
        exact .store inside
      · simp only [Cpu.execute, Cpu.get_fetched,
          Memory.locate_of_not_inRange inside] at cycle
        rw [observed_of_error cycle]
        exact .storeFails inside
  | div =>
      by_cases zero : (processor.cpu.fetched word).get operand = 0
      · simp only [Cpu.execute, if_pos zero] at cycle
        rw [observed_of_ok cycle]
        exact .divideByZero (value_eq_zero_iff.mpr zero)
      · simp only [Cpu.execute, if_neg zero] at cycle
        exact executes_of_assign cycle (computes_div _ _ zero)
  | «if» =>
      by_cases zero : (processor.cpu.fetched word).get target = 0
      · simp only [Cpu.execute, if_pos zero] at cycle
        rw [observed_of_ok cycle]
        exact .pass (value_eq_zero_iff.mpr zero)
      · simp only [Cpu.execute, if_neg zero] at cycle
        rw [observed_of_ok cycle]
        exact .jump (mt value_eq_zero_iff.mp zero)
  | add => exact executes_of_assign cycle (computes_add _ _)
  | mul => exact executes_of_assign cycle (computes_mul _ _)
  | sub => exact executes_of_assign cycle (computes_sub _ _)
  | and => exact executes_of_assign cycle (computes_and _ _)
  | or => exact executes_of_assign cycle (computes_or _ _)
  | not => exact executes_of_assign cycle (computes_not _ _)
  | lshift => exact executes_of_assign cycle (computes_lshift _ _)
  | rshift => exact executes_of_assign cycle (computes_rshift _ _)
  | bwc => exact executes_of_assign cycle (computes_bwc _ _)
  | bwd => exact executes_of_assign cycle (computes_bwd _ _)

end Step

theorem observed_of_undecodable {processor : Processor} {memory : Memory}
    {word : Word} {cause : DecodeError}
    (fetched : memory.read processor.cpu.pc = .ok word)
    (undecodable : Instruction.decode word = .error cause) :
    observed (processor.step memory) =
      ⟨.ok .halted, some (.unrecognized processor.cpu.pc cause),
        (Observation.of processor.cpu memory).fetched word⟩ := by
  have cycle : processor.cpu.cycle memory =
      .ok (.halt (processor.cpu.fetched word)
        (some (.unrecognized processor.cpu.pc cause))) := by
    simp only [Cpu.cycle, fetched, undecodable]
  rw [observed_of_ok cycle]
  rfl

/-- What a step does: it fails in its fetch, halts on a word that is no instruction,
or executes an instruction. -/
inductive Steps (state : Observation) : Outcome → Prop
  | unmapped (outside : ¬ state.pc.InRange state.capacity) :
      Steps state (.failed state state.pc)
  | undecodable {cause : DecodeError} (inside : state.pc.InRange state.capacity)
      (undecodable : Instruction.decode (state.contents state.pc) = .error cause) :
      Steps state ⟨.ok .halted, some (.unrecognized state.pc cause),
        state.fetched (state.contents state.pc)⟩
  | executes {instruction : Instruction} {outcome : Outcome}
      (inside : state.pc.InRange state.capacity)
      (decoded : Instruction.decode (state.contents state.pc) = .ok instruction)
      (executes : Executes state (state.contents state.pc) instruction outcome) :
      Steps state outcome

theorem steps_observed (processor : Processor) (memory : Memory) :
    Steps (.of processor.cpu memory) (observed (processor.step memory)) := by
  by_cases inside : processor.cpu.pc.InRange memory.capacity
  · have fetched := Memory.read_of_inRange inside
    cases decoded : Instruction.decode
        (memory.cell processor.cpu.pc.value.toNat) with
    | ok instruction =>
        exact .executes inside decoded (executes_step fetched decoded)
    | error cause =>
        rw [observed_of_undecodable fetched decoded]
        exact .undecodable inside decoded
  · have cycle : processor.cpu.cycle memory =
        .error (.outOfRange processor.cpu.pc memory.capacity) := by
      simp only [Cpu.cycle, Memory.read_of_not_inRange inside]
    rw [observed_of_error cycle]
    exact .unmapped inside

theorem Executes.result_eq_halted_iff {state : Observation} {word : Word}
    {instruction : Instruction} {outcome : Outcome}
    (executes : Executes state word instruction outcome) :
    outcome.result = .ok .halted ↔ instruction.opcode = .halt := by
  cases executes with
  | halt => simp
  | compute computes => cases computes <;> simp [Outcome.completed]
  | _ => simp [Outcome.completed, Outcome.failed]

theorem Executes.after_of_halt {state : Observation} {word : Word}
    {instruction : Instruction} {outcome : Outcome}
    (executes : Executes state word instruction outcome)
    (halts : instruction.opcode = .halt) :
    outcome.after = state.fetched word := by
  cases executes with
  | halt => rfl
  | compute computes =>
      simp only at halts
      subst halts
      cases computes
  | _ => cases halts

theorem Executes.diagnostic_ne_unrecognized {state : Observation} {word : Word}
    {instruction : Instruction} {outcome : Outcome}
    (executes : Executes state word instruction outcome) (address : Word)
    (cause : DecodeError) :
    outcome.diagnostic ≠ some (.unrecognized address cause) := by
  intro raised
  cases executes <;> cases raised

/-- A step from a cell that exists has the outcome of the table, and no other.
It halts exactly on a word that is no instruction and on `halt`, and then leaves
all registers and cells as they were. -/
theorem step_implements_table (processor : Processor) (memory : Memory)
    (inside : processor.cpu.pc.InRange memory.capacity) :
    let state := Observation.of processor.cpu memory
    let word := state.contents processor.cpu.pc
    let outcome := observed (processor.step memory)
    (∀ instruction, Instruction.decode word = .ok instruction →
      ∀ other, Executes state word instruction other ↔ other = outcome) ∧
    (∀ cause, Instruction.decode word = .error cause →
      outcome = ⟨.ok .halted, some (.unrecognized processor.cpu.pc cause),
        state.fetched word⟩) ∧
    (outcome.result = .ok .halted ↔
      (∃ cause, Instruction.decode word = .error cause) ∨
        ∃ instruction, Instruction.decode word = .ok instruction ∧
          instruction.opcode = .halt) ∧
    (outcome.result = .ok .halted →
      outcome.after.registers = state.registers ∧
        outcome.after.capacity = state.capacity ∧
        outcome.after.cells = state.cells) := by
  intro state word outcome
  have fetched : memory.read processor.cpu.pc = .ok word :=
    Memory.read_of_inRange inside
  refine ⟨?_, fun cause => observed_of_undecodable fetched, ?_⟩
  · intro instruction decoded
    exact (executes_step fetched decoded).iff_eq
  · cases decoded : Instruction.decode word with
    | error cause =>
        have halted := observed_of_undecodable fetched decoded
        simp only [outcome, halted]
        exact ⟨by simp, fun _ => ⟨rfl, rfl, rfl⟩⟩
    | ok instruction =>
        have executes := executes_step fetched decoded
        constructor
        · rw [executes.result_eq_halted_iff]
          simp
        · intro halted
          have after := executes.after_of_halt
            (executes.result_eq_halted_iff.mp halted)
          rw [after]
          exact ⟨rfl, rfl, rfl⟩

/-- The least value divided by minus one is itself. -/
theorem step_implements_table_of_least_by_minus_one :
    let word := Instruction.encode ⟨.div, 0, 1⟩
    let processor : Processor :=
      ((Processor.initial.set 0 0x80000000).set 1 (-1)).setPc 2
    let memory := (Memory.empty 4).set ⟨2, by decide⟩ word
    let state := Observation.of processor.cpu memory
    processor.cpu.pc.InRange memory.capacity ∧
      state.contents processor.cpu.pc = word ∧
      observed (processor.step memory) =
        .completed ((state.fetched word).assign 0 (Word.ofValue (-2 ^ 31))) := by
  intro word processor memory state
  have inside : processor.cpu.pc.InRange memory.capacity := by decide
  have present : state.contents processor.cpu.pc = word := by decide
  have decoded : Instruction.decode (state.contents processor.cpu.pc) =
      .ok ⟨.div, 0, 1⟩ := by
    rw [present]
    exact Instruction.decode_encode _
  obtain ⟨executed, _⟩ := step_implements_table processor memory inside
  refine ⟨inside, present, ((executed _ decoded _).mp ?_).symm⟩
  rw [← present]
  exact .compute (.divWraps (by decide) (by decide) (by decide))

end WordMachine.Isa
