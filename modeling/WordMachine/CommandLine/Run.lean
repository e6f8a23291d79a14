import WordMachine.CommandLine.Arguments
import WordMachine.CommandLine.Report
import WordMachine.Console.Session

namespace WordMachine.CommandLine

/-! The program on the command line: it loads a file if one is given, and then
either runs it and dumps the machine or opens the console. Variables that cannot be
used are noted before that. -/

def version : String := "micro1 0.1.0\n"

def help : String :=
  String.join
    ["Assembler and instruction-set simulator for the Micro-1 teaching processor\n",
      "\n",
      "Usage: micro1 [OPTIONS] [FILE]\n",
      "\n",
      "Arguments:\n",
      "  [FILE]  Program to load. `.asm` files are assembled; anything else is read as hex words\n",
      "\n",
      "Options:\n",
      "      --capacity <CAPACITY>  Number of words of memory\n",
      "      --steps <STEPS>        Most instructions `run` executes before giving up\n",
      "      --persist              Write assembled programs next to their source as `.hex`\n",
      "      --run                  Run FILE to halt and dump the machine instead of starting the console\n",
      "  -h, --help                 Print help\n",
      "  -V, --version              Print version\n"]

def usage : String :=
  "Usage: micro1 [OPTIONS] [FILE]\n\nFor more information, try '--help'.\n"

/-- The program ends with a code, or its console opens on a machine. -/
inductive Startup where
  | exit (code : Nat)
  | console (machine : Machine)

variable {m : Type → Type} [Monad m] [Host m] {Given : Type}

def fail (report : String) : m Nat := do
  Host.complain report
  pure 1

def printAndExit (text : String) : m Nat := do
  match ← Host.print text with
  | .ok () => pure 0
  | .error fault => fail (Report.text fault.message [])

/-- Runs a loaded machine within its budget and dumps it. -/
def runToHalt (machine : Machine) : m Nat := do
  match machine.run machine.config.stepBudget with
  | (.error error, _) => fail (Report.text error.message [])
  | (.ok summary, after) => do
      match summary.status with
      | .running =>
          Host.complain s!"warning: step budget of {summary.executed} exhausted\n"
      | .halted => pure ()
      printAndExit (String.ofList after.display ++ "\n")

/-- The machine with the file of the command line loaded, or the code of a
failure. -/
def prepare (arguments : Arguments) (config : Config) : m (Except Nat Machine) := do
  let machine := Machine.new config
  match arguments.file with
  | none => pure (.ok machine)
  | some path =>
      match ← machine.loadFile path with
      | (.error error, _) => do
          let code ← fail (Report.load path error)
          pure (.error code)
      | (.ok file, loaded) => do
          match file.unsaved with
          | some fault =>
              Host.complain
                s!"warning: assembled words were not saved: {fault.message}\n"
          | none => pure ()
          pure (.ok loaded)

/-- The warnings of variables that cannot be used. -/
def warnings (lookup : String → Option Text) : List Event :=
  (Config.refusals lookup).map .refused

def start (reader : Reader Given) (lookup : String → Option Text)
    (given : List Given) : m Startup := do
  match reader given with
  | .help => return .exit (← printAndExit help)
  | .version => return .exit (← printAndExit version)
  | .misuse => do
      Host.complain usage
      pure (.exit 2)
  | .start arguments => do
      (Host.noteAll (warnings lookup) : m Unit)
      let config := arguments.configure (Config.defaults.override lookup)
      match ← prepare arguments config with
      | .error code => pure (.exit code)
      | .ok machine =>
          if arguments.run then return .exit (← runToHalt machine)
          else pure (.console machine)

/-- The exit code of a console that has ended. -/
def close (result : Except Fault Unit) : m Nat :=
  match result with
  | .ok () => pure 0
  | .error fault => fail (Report.text fault.message [])

def run (reader : Reader Given) (lookup : String → Option Text) (given : List Given)
    (input : Bytes) : m Nat := do
  match ← start reader lookup given with
  | .exit code => pure code
  | .console machine => do
      let (result, _) ← (Console.Session.control input).on machine
      close result

end WordMachine.CommandLine
