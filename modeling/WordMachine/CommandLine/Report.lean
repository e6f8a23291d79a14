import WordMachine.Program.File

namespace WordMachine.CommandLine

/-! Reports of failure: a headline, and its causes with the nearest first. A
single cause has no number, and a cause of several lines hangs below its first. -/

namespace Report

def hang (indent : Nat) (text : String) : String :=
  let lines := text.toList.splitOn '\n'
  let gap := '\n' :: List.replicate indent ' '
  String.ofList (gap.intercalate lines)

def numbered (index : Nat) (cause : String) : String :=
  let digits := toString index
  let gap := String.ofList (List.replicate (5 - digits.length) ' ')
  gap ++ digits ++ ": " ++ hang 7 cause ++ "\n"

def causes : List String → String
  | [] => ""
  | [cause] => "\nCaused by:\n    " ++ hang 4 cause ++ "\n"
  | several =>
      "\nCaused by:\n" ++
        String.join (several.zipIdx.map fun (cause, index) => numbered index cause)

def text (headline : String) (chain : List String) : String :=
  s!"Error: {headline}\n" ++ causes chain

/-- A failure to load and what it came from. -/
def loadCauses (error : LoadError) : List String :=
  match error with
  | .unreadable _ fault => [error.message, fault.message]
  | .source failure => [error.message, failure.cause.message]
  | .memory _ => [error.message]

def load (path : Path) (error : LoadError) : String :=
  text s!"failed to load {path.shown}" (loadCauses error)

end Report

end WordMachine.CommandLine
