import WordMachine.Dump.Table
import WordMachine.Processor

namespace WordMachine

/-! Dumps of memory and registers: one labelled word a row, in hexadecimal. -/

namespace Dump

def title : Row :=
  ⟨.ofText .right "Address".toList, .ofText .left "Contents".toList⟩

def row (label : Text) (word : Word) : Row :=
  ⟨.ofText .right (label ++ [' ', '=']), .ofText .left word.hex⟩

def label (name : Text) (index : Nat) : Text :=
  name ++ '[' :: Nat.toDigits 10 index ++ [']']

def arrow : Text :=
  ['*', ' ', '-', '-', '>', ' ']

/-- Words with their indices. The marked one carries an arrow. -/
def wordRows (name : Text) (marked : Option Nat) (words : List Word) : List Row :=
  words.zipIdx.map fun (word, index) =>
    let mark := if marked = some index then arrow else []
    row (mark ++ label name index) word

def memoryTable (memory : Memory) (marked : Option Nat) : Table :=
  ⟨title, wordRows "Cell".toList marked memory.cells⟩

def registerTable (cpu : Cpu) : Table :=
  ⟨title, wordRows "Register".toList none cpu.registers.toList ++
    [row ['P', 'C'] cpu.pc, row ['I', 'R'] cpu.ir]⟩

def sideBySide (printer : Printer) (memory registers : Table) : Table :=
  ⟨⟨.ofText .left "Memory".toList, .ofText .left "Processor".toList⟩,
    [⟨printer.cell memory, printer.cell registers⟩]⟩

end Dump

namespace Memory

def display (memory : Memory) : Text :=
  "Memory:\n".toList ++ (Dump.memoryTable memory none).text

end Memory

namespace Processor

def display (processor : Processor) : Text :=
  "Registers:\n".toList ++ (Dump.registerTable processor.cpu).text

end Processor

end WordMachine
