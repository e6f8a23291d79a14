import WordMachine.Word

namespace WordMachine

/-! A program is an image of words, loaded from address zero. An assembled
program also knows the source line of each word: statements and words are in
the same order, so the lines are those of the statements. -/

structure Program where
  words : List Word
  lines : Option (List Nat)
  deriving DecidableEq, Repr

namespace Program

def ofWords (words : List Word) : Program :=
  ⟨words, none⟩

def lineOfAddress (program : Program) (address : Nat) : Option Nat :=
  program.lines.bind fun lines => lines[address]?

def addressOfLine (program : Program) (line : Nat) : Option Nat :=
  program.lines.bind fun lines => lines.idxOf? line

/-- One word of eight digits a line. -/
def hexText (program : Program) : Text :=
  program.words.flatMap fun word => word.hex8 ++ ['\n']

@[simp] theorem lineOfAddress_ofWords (words : List Word) (address : Nat) :
    (ofWords words).lineOfAddress address = none := rfl

@[simp] theorem addressOfLine_ofWords (words : List Word) (line : Nat) :
    (ofWords words).addressOfLine line = none := rfl

end Program

end WordMachine
