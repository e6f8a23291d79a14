import WordMachine.Config
import WordMachine.Processor
import WordMachine.Program.Basic

namespace WordMachine

/-! A machine: a memory, a processor, and the source lines of the program that
was loaded last. -/

structure Machine where
  config : Config
  memory : Memory
  processor : Processor
  lines : Option (List Nat)

namespace Machine

def new (config : Config) : Machine :=
  ⟨config, .empty config.capacity, .initial, none⟩

def get (machine : Machine) (register : Register) : Word :=
  machine.processor.get register

def set (machine : Machine) (register : Register) (word : Word) : Machine :=
  { machine with processor := machine.processor.set register word }

def pc (machine : Machine) : Word :=
  machine.processor.cpu.pc

def setPc (machine : Machine) (address : Word) : Machine :=
  { machine with processor := machine.processor.setPc address }

def diagnostic (machine : Machine) : Option Diagnostic :=
  machine.processor.diagnostic

/-- Replaces memory by a program and points at its start. Registers and the last
diagnostic stay. -/
def load (machine : Machine) (program : Program) : Except MemoryError Machine :=
  match machine.memory.loadImage program.words with
  | .ok memory =>
      .ok { machine with
        memory := memory
        processor := machine.processor.rewind
        lines := program.lines }
  | .error error => .error error

def reset (machine : Machine) : Machine :=
  { machine with
    memory := machine.memory.clear
    processor := .initial
    lines := none }

/-- The line of assembly that the word at an address came from. -/
def sourceLine (machine : Machine) (address : Word) : Option Nat :=
  if 0 ≤ address.value then
    machine.lines.bind fun lines => lines[address.value.toNat]?
  else
    none

theorem load_eq_error_iff {machine : Machine} {program : Program}
    {error : MemoryError} :
    machine.load program = .error error ↔
      machine.memory.loadImage program.words = .error error := by
  unfold load
  cases machine.memory.loadImage program.words with
  | ok memory => simp
  | error found => simp

theorem config_of_load {machine loaded : Machine} {program : Program}
    (load : machine.load program = .ok loaded) : loaded.config = machine.config := by
  unfold Machine.load at load
  split at load
  next => cases load; rfl
  next => cases load

theorem capacity_of_load {machine loaded : Machine} {program : Program}
    (load : machine.load program = .ok loaded) :
    loaded.memory.capacity = machine.memory.capacity := by
  unfold Machine.load at load
  split at load
  next memory image =>
      cases load
      exact Memory.capacity_of_loadImage image
  next => cases load

end Machine

end WordMachine
