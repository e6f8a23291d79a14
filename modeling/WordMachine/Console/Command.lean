import WordMachine.Storage.Path
import WordMachine.Text.Blank
import WordMachine.Text.Numeral

namespace WordMachine.Console

/-! Console commands: a name and at most one argument, with blanks between
them. Further words are ignored. -/

inductive Keyword where
  | load
  | memory
  | registers
  | step
  | run
  | reset
  | help
  | quit
  deriving DecidableEq, Repr

namespace Keyword

def all : List Keyword :=
  [.load, .memory, .registers, .step, .run, .reset, .help, .quit]

def name : Keyword → Text
  | .load => ['l', 'o', 'a', 'd']
  | .memory => ['m', 'e', 'm', 'o', 'r', 'y']
  | .registers => ['r', 'e', 'g', 'i', 's', 't', 'e', 'r', 's']
  | .step => ['s', 't', 'e', 'p']
  | .run => ['r', 'u', 'n']
  | .reset => ['r', 'e', 's', 'e', 't']
  | .help => ['h', 'e', 'l', 'p']
  | .quit => ['q', 'u', 'i', 't']

def ofName? (text : Text) : Option Keyword :=
  all.find? fun keyword => keyword.name == text

@[simp] theorem ofName?_name (keyword : Keyword) :
    ofName? keyword.name = some keyword := by
  cases keyword <;> rfl

theorem ofName?_eq_some_iff {text : Text} {keyword : Keyword} :
    ofName? text = some keyword ↔ text = keyword.name := by
  constructor
  · intro found
    have matching := List.find?_some found
    have same : keyword.name = text := by simpa using matching
    exact same.symm
  · rintro rfl
    exact ofName?_name keyword

end Keyword

inductive Command where
  | blank
  | load (path : Path)
  | loadNothing
  | memory
  | registers
  | step (count : Nat)
  | stepUnclear
  | run
  | reset
  | help
  | quit
  | unknown (name : Text)
  deriving DecidableEq, Repr

namespace Command

def ofKeyword (argument : Option Text) : Keyword → Command
  | .load =>
      match argument with
      | some text => .load (.ofText text)
      | none => .loadNothing
  | .memory => .memory
  | .registers => .registers
  | .step =>
      match argument.bind Numeral.size? with
      | some count => .step count
      | none => .stepUnclear
  | .run => .run
  | .reset => .reset
  | .help => .help
  | .quit => .quit

def ofLine (line : Text) : Command :=
  match line.words isBlank with
  | [] => .blank
  | name :: arguments =>
      match Keyword.ofName? name with
      | some keyword => ofKeyword arguments.head? keyword
      | none => .unknown name

end Command

end WordMachine.Console
