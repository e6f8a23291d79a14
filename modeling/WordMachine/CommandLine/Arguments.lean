import WordMachine.Config
import WordMachine.Storage.Path

namespace WordMachine.CommandLine

/-! The arguments of the program, and a reader of them from left to right. A request
for help or for the version ends the reading at once; every other argument may be
given only once. -/

structure Arguments where
  file : Option Path
  capacity : Option Nat
  steps : Option Nat
  persist : Bool
  run : Bool
  deriving DecidableEq, Repr

inductive Invocation where
  | start (arguments : Arguments)
  | help
  | version
  | misuse
  deriving DecidableEq, Repr

/-- What the program makes of the texts that it is given. -/
abbrev Reader (Given : Type) :=
  List Given → Invocation

/-- The options by name. -/
inductive Switch where
  | capacity
  | steps
  | persist
  | run
  | help
  | version
  deriving DecidableEq, Repr

namespace Switch

def all : List Switch :=
  [.capacity, .steps, .persist, .run, .help, .version]

def name : Switch → Text
  | .capacity => ['c', 'a', 'p', 'a', 'c', 'i', 't', 'y']
  | .steps => ['s', 't', 'e', 'p', 's']
  | .persist => ['p', 'e', 'r', 's', 'i', 's', 't']
  | .run => ['r', 'u', 'n']
  | .help => ['h', 'e', 'l', 'p']
  | .version => ['v', 'e', 'r', 's', 'i', 'o', 'n']

def ofName? (text : Text) : Option Switch :=
  all.find? fun switch => switch.name == text

def takesValue : Switch → Bool
  | .capacity => true
  | .steps => true
  | _ => false

end Switch

/-- An argument by its form. -/
inductive Item where
  | long (name : Text) (value : Option Text)
  | short (letter : Char)
  | terminator
  | positional (text : Text)
  deriving DecidableEq, Repr

namespace Item

def ofText : Text → Item
  | ['-', '-'] => .terminator
  | '-' :: '-' :: option =>
      match option.dropWhile fun c => c != '=' with
      | _ :: value => .long (option.takeWhile fun c => c != '=') (some value)
      | [] => .long option none
  | '-' :: letter :: _ => .short letter
  | text => .positional text

end Item

namespace Arguments

def empty : Arguments :=
  ⟨none, none, none, false, false⟩

/-- The number of cells that a value of `--capacity` asks for. -/
def capacityValue? (value : Text) : Option Nat :=
  match Numeral.signed? value with
  | some number =>
      if 1 ≤ number ∧ number < Int.pow 2 32 then some number.toNat else none
  | none => none

def give (arguments : Arguments) (switch : Switch) (value : Text) :
    Option Arguments :=
  match switch with
  | .capacity =>
      match arguments.capacity, capacityValue? value with
      | none, some capacity => some { arguments with capacity := some capacity }
      | _, _ => none
  | .steps =>
      match arguments.steps, Numeral.size? value with
      | none, some steps => some { arguments with steps := some steps }
      | _, _ => none
  | _ => none

def raise (arguments : Arguments) : Switch → Option Arguments
  | .persist =>
      if arguments.persist then none else some { arguments with persist := true }
  | .run => if arguments.run then none else some { arguments with run := true }
  | _ => none

def place (arguments : Arguments) (text : Text) : Option Arguments :=
  if text.isEmpty || arguments.file.isSome then none
  else some { arguments with file := some (.ofText text) }

/-- A run needs a file. -/
def finish (arguments : Arguments) : Invocation :=
  if arguments.run && arguments.file.isNone then .misuse else .start arguments

def readFiles (arguments : Arguments) : List Text → Invocation
  | [] => arguments.finish
  | text :: rest =>
      match arguments.place text with
      | some placed => placed.readFiles rest
      | none => .misuse

/-- Reads the arguments that are left; `awaiting` is an option that still needs
its value. -/
def read (arguments : Arguments) (awaiting : Option Switch) :
    List Text → Invocation
  | [] => if awaiting.isSome then .misuse else arguments.finish
  | text :: rest =>
      match awaiting, Item.ofText text with
      | some switch, .positional value =>
          match arguments.give switch value with
          | some given => given.read none rest
          | none => .misuse
      | some _, _ => .misuse
      | none, .terminator => arguments.readFiles rest
      | none, .positional value =>
          match arguments.place value with
          | some placed => placed.read none rest
          | none => .misuse
      | none, .short letter =>
          if letter = 'h' then .help else if letter = 'V' then .version else .misuse
      | none, .long name value =>
          match Switch.ofName? name, value with
          | some .help, none => .help
          | some .version, none => .version
          | some switch, none =>
              if switch.takesValue then arguments.read (some switch) rest
              else
                match arguments.raise switch with
                | some raised => raised.read none rest
                | none => .misuse
          | some switch, some given =>
              match arguments.give switch given with
              | some updated => updated.read none rest
              | none => .misuse
          | none, _ => .misuse

/-- Options weigh more than variables, and variables more than the defaults. -/
def configure (arguments : Arguments) (config : Config) : Config :=
  { config with
    capacity := arguments.capacity.getD config.capacity
    stepBudget := arguments.steps.getD config.stepBudget
    persist := arguments.persist || config.persist }

end Arguments

def Invocation.ofArguments : Reader Text :=
  Arguments.empty.read none

end WordMachine.CommandLine
