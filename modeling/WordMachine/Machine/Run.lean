import WordMachine.Event
import WordMachine.Machine.Basic

namespace WordMachine

/-! Running a machine: single steps, and bounded runs that end at a halt or at a
memory error. -/

structure RunSummary where
  executed : Nat
  status : Status
  deriving DecidableEq, Repr

namespace Machine

def step (machine : Machine) : Except MemoryError Status × Machine :=
  let outcome := machine.processor.step machine.memory
  (outcome.result,
    { machine with processor := outcome.processor, memory := outcome.memory })

/-- Continues a run that has completed some steps, for at most `budget` more. -/
def runFrom (executed : Nat) :
    Nat → Machine → Except MemoryError RunSummary × Machine
  | 0, machine => (.ok ⟨executed, .running⟩, machine)
  | budget + 1, machine =>
      match machine.step with
      | (.error error, after) => (.error error, after)
      | (.ok .halted, after) => (.ok ⟨executed + 1, .halted⟩, after)
      | (.ok .running, after) => runFrom (executed + 1) budget after

def run (machine : Machine) (budget : Nat) :
    Except MemoryError RunSummary × Machine :=
  runFrom 0 budget machine

/-- What the journal records of the next step. -/
def stepEvents (machine : Machine) : List Event :=
  let line := (machine.sourceLine machine.pc).toList.map Event.sourceLine
  let instruction := (machine.processor.cpu.pending machine.memory).toList.map
    (Event.executing machine.pc)
  let raised := machine.step.2.diagnostic.toList.map Event.raised
  line ++ instruction ++ raised

def runEvents : Nat → Machine → List Event
  | 0, _ => []
  | budget + 1, machine =>
      machine.stepEvents ++
        match machine.step with
        | (.ok .running, after) => runEvents budget after
        | _ => []

@[simp] theorem runFrom_zero (executed : Nat) (machine : Machine) :
    runFrom executed 0 machine = (.ok ⟨executed, .running⟩, machine) := rfl

theorem config_step (machine : Machine) : machine.step.2.config = machine.config := rfl

theorem lines_step (machine : Machine) : machine.step.2.lines = machine.lines := rfl

theorem capacity_of_step (machine : Machine) :
    machine.step.2.memory.capacity = machine.memory.capacity :=
  Processor.capacity_step machine.processor machine.memory

theorem runFrom_preserves (invariant : Machine → Prop)
    (kept : ∀ machine, invariant machine → invariant machine.step.2)
    (executed budget : Nat) (machine : Machine) (holds : invariant machine) :
    invariant (runFrom executed budget machine).2 := by
  induction budget generalizing executed machine with
  | zero => exact holds
  | succ budget induction =>
      have next := kept machine holds
      unfold runFrom
      split
      next after step => rw [step] at next; exact next
      next after step => rw [step] at next; exact next
      next after step =>
          rw [step] at next
          exact induction (executed + 1) after next

theorem capacity_of_run (machine : Machine) (budget : Nat) :
    (machine.run budget).2.memory.capacity = machine.memory.capacity :=
  runFrom_preserves (fun after => after.memory.capacity = machine.memory.capacity)
    (fun after same => (capacity_of_step after).trans same) 0 budget machine rfl

end Machine

end WordMachine
