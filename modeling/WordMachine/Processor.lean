import WordMachine.Cpu

namespace WordMachine

/-! A processor is a central processing unit with the diagnostic of its last
step. A step that fails changes nothing but that diagnostic, which it clears. -/

structure Processor where
  cpu : Cpu
  diagnostic : Option Diagnostic
  deriving DecidableEq, Repr

structure StepOutcome where
  result : Except MemoryError Status
  processor : Processor
  memory : Memory

namespace Processor

def initial : Processor :=
  ⟨.initial, none⟩

def get (processor : Processor) (register : Register) : Word :=
  processor.cpu.get register

def set (processor : Processor) (register : Register) (word : Word) : Processor :=
  { processor with cpu := processor.cpu.set register word }

def setPc (processor : Processor) (address : Word) : Processor :=
  { processor with cpu := { processor.cpu with pc := address } }

/-- Points the processor at the start of memory with nothing fetched. -/
def rewind (processor : Processor) : Processor :=
  { processor with cpu := { processor.cpu with pc := 0, ir := 0 } }

def step (processor : Processor) (memory : Memory) : StepOutcome :=
  match processor.cpu.cycle memory with
  | .error error => ⟨.error error, ⟨processor.cpu, none⟩, memory⟩
  | .ok effect =>
      ⟨.ok effect.status, ⟨effect.cpu, effect.diagnostic⟩,
        match effect.stored with
        | some (index, word) => memory.set index word
        | none => memory⟩

theorem step_of_error {processor : Processor} {memory : Memory}
    {error : MemoryError} (failed : processor.cpu.cycle memory = .error error) :
    processor.step memory =
      ⟨.error error, ⟨processor.cpu, none⟩, memory⟩ := by
  simp [step, failed]

theorem capacity_step (processor : Processor) (memory : Memory) :
    (processor.step memory).memory.capacity = memory.capacity := by
  unfold step
  split
  · rfl
  · split <;> rfl

end Processor

end WordMachine
