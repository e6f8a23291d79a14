import WordMachine.Config
import WordMachine.Diagnostic
import WordMachine.Storage.Fault
import WordMachine.Storage.Path

namespace WordMachine

/-! The journal records what a machine did, for whoever wants to follow it. -/

inductive Level where
  | warn
  | info
  | trace
  deriving DecidableEq, Repr

inductive Event where
  | assembled (count : Nat) (path : Path)
  | imageRead (count : Nat) (path : Path)
  | notSaved (path : Path) (fault : Fault)
  | loaded (count : Nat)
  | sourceLine (line : Nat)
  | executing (pc : Word) (instruction : Instruction)
  | raised (diagnostic : Diagnostic)
  | refused (refusal : Refusal)
  deriving DecidableEq, Repr

namespace Level

def name : Level → String
  | .warn => "WARN"
  | .info => "INFO"
  | .trace => "TRACE"

end Level

namespace Event

def level : Event → Level
  | .assembled _ _ => .info
  | .imageRead _ _ => .info
  | .notSaved _ _ => .warn
  | .loaded _ => .info
  | .sourceLine _ => .trace
  | .executing _ _ => .trace
  | .raised _ => .warn
  | .refused _ => .warn

/-- Addresses line up on their right up to four characters. -/
def column (pc : Word) : String :=
  let digits := toString pc.value
  String.ofList (List.replicate (4 - digits.length) ' ') ++ digits

def message : Event → String
  | .assembled count path => s!"Assembled {count} words from {path.shown}"
  | .imageRead count path => s!"Read {count} words from {path.shown}"
  | .notSaved path fault => s!"Could not write {path.shown}: {fault.message}"
  | .loaded count => s!"Loaded {count} words"
  | .sourceLine line => s!"Stepping from source line {line}"
  | .executing pc instruction => s!"{column pc}: {instruction.text}"
  | .raised diagnostic => diagnostic.message
  | .refused refusal => refusal.message

def text (event : Event) : String :=
  s!"{event.level.name} {event.message}"

end Event

end WordMachine
