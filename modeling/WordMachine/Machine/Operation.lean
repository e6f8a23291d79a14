import WordMachine.Dump.Machine
import WordMachine.Machine.Run
import WordMachine.Memory.Operation

namespace WordMachine

/-! Operations on a machine as data, so that a machine can have a history. Every
operation has an answer, and some leave entries in the journal. -/

namespace Machine

inductive Operation where
  | load (program : Program)
  | step
  | run (budget : Nat)
  | runToHalt
  | reset
  | setPc (address : Word)
  | set (register : Register) (word : Word)
  | get (register : Register)
  | memory (operation : Memory.Operation)
  | memoryTable
  | registerTable
  | display
  deriving DecidableEq, Repr

inductive Answer where
  | done
  | status (status : Status)
  | summary (summary : RunSummary)
  | word (word : Word)
  | dump (text : Text)
  | memory (answer : Memory.Answer)
  | failed (error : MemoryError)
  deriving DecidableEq, Repr

namespace Answer

def ofStep : Except MemoryError Status → Answer
  | .ok reached => .status reached
  | .error error => .failed error

def ofRun : Except MemoryError RunSummary → Answer
  | .ok finished => .summary finished
  | .error error => .failed error

end Answer

def perform (machine : Machine) : Operation → Answer × Machine
  | .load program =>
      match machine.load program with
      | .ok loaded => (.done, loaded)
      | .error error => (.failed error, machine)
  | .step => machine.step.map .ofStep id
  | .run budget => (machine.run budget).map .ofRun id
  | .runToHalt => (machine.run machine.config.stepBudget).map .ofRun id
  | .reset => (.done, machine.reset)
  | .setPc address => (.done, machine.setPc address)
  | .set register word => (.done, machine.set register word)
  | .get register => (.word (machine.get register), machine)
  | .memory operation =>
      (machine.memory.perform operation).map .memory fun memory =>
        { machine with memory := memory }
  | .memoryTable => (.dump machine.memoryTable.text, machine)
  | .registerTable => (.dump machine.registerTable.text, machine)
  | .display => (.dump machine.display, machine)

/-- What the journal records of an operation. -/
def events (machine : Machine) : Operation → List Event
  | .load program =>
      match machine.load program with
      | .ok _ => [.loaded program.words.length]
      | .error _ => []
  | .step => machine.stepEvents
  | .run budget => runEvents budget machine
  | .runToHalt => runEvents machine.config.stepBudget machine
  | _ => []

/-- The machine after a history of operations. -/
def after (machine : Machine) (history : List Operation) : Machine :=
  history.foldl (fun machine operation => (machine.perform operation).2) machine

@[simp] theorem after_nil (machine : Machine) : machine.after [] = machine := rfl

@[simp] theorem after_cons (machine : Machine) (operation : Operation)
    (rest : List Operation) :
    machine.after (operation :: rest) =
      (machine.perform operation).2.after rest := rfl

theorem after_append (machine : Machine) (front back : List Operation) :
    machine.after (front ++ back) = (machine.after front).after back := by
  simp [after]

theorem capacity_perform (machine : Machine) (operation : Operation) :
    (machine.perform operation).2.memory.capacity = machine.memory.capacity := by
  cases operation with
  | load program =>
      simp only [perform]
      split
      next loaded load => exact capacity_of_load load
      next => rfl
  | step => exact capacity_of_step machine
  | run budget => exact capacity_of_run machine budget
  | runToHalt => exact capacity_of_run machine machine.config.stepBudget
  | memory operation => exact Memory.capacity_perform machine.memory operation
  | _ => rfl

end Machine

end WordMachine
