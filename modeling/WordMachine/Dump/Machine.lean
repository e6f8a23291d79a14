import WordMachine.Dump.Words
import WordMachine.Machine.Basic

namespace WordMachine

/-! Dumps of a whole machine. An arrow marks the cell that is fetched next. -/

namespace Machine

def memoryTable (machine : Machine) : Table :=
  Dump.memoryTable machine.memory
    (if 0 ≤ machine.pc.value then some machine.pc.value.toNat else none)

def registerTable (machine : Machine) : Table :=
  Dump.registerTable machine.processor.cpu

/-- Both tables beside each other, themselves as a table. -/
def displayBy (printer : Printer) (machine : Machine) : Text :=
  printer.text (Dump.sideBySide printer machine.memoryTable machine.registerTable)

def display (machine : Machine) : Text :=
  machine.displayBy Table.lines

end Machine

end WordMachine
