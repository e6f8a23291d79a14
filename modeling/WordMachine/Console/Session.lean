import WordMachine.Console.Command
import WordMachine.Dump.Machine
import WordMachine.Machine.Run
import WordMachine.Program.File
import WordMachine.Text.Lines

namespace WordMachine.Console

/-! A console session works on one machine and stops at the first print that
fails. The machine is then as the work before that print has left it. -/

abbrev Session (m : Type → Type) := ExceptT Fault (StateT Machine m)

inductive Flow where
  | proceed
  | quit
  deriving DecidableEq, Repr

/-- How a series of steps ended. -/
inductive Ending where
  | halted
  | failed
  | exhausted
  deriving DecidableEq, Repr

def prompt : String := "-> "

def banner : String := "type \"help\" for commands"

def helpLines : List String :=
  ["load fileName \t loads an assembly (.asm) or hex memory image into memory",
    "memory \t\t dumps memory to console",
    "registers \t dumps registers to console",
    "step N \t\t executes next N instructions or until halt",
    "run \t\t executes until halt",
    "reset \t\t clears memory and registers",
    "help \t\t displays this message",
    "quit \t\t terminate console"]

namespace Session

variable {m : Type → Type} [Monad m] [Host m]

/-- The outcome of a session on a machine, and the machine after it. -/
def on {α : Type} (machine : Machine) (session : Session m α) :
    m (Except Fault α × Machine) :=
  StateT.run (ExceptT.run session) machine

def print (text : String) : Session m Unit := do
  match ← (Host.print text : m (Except Fault Unit)) with
  | .ok () => pure ()
  | .error fault => throw fault

def printLine (text : String) : Session m Unit :=
  print (text ++ "\n")

def printLines : List String → Session m Unit
  | [] => pure ()
  | text :: rest => do
      printLine text
      printLines rest

/-- One step with its journal entries and its diagnostic. -/
def step : Session m (Except MemoryError Status) := do
  let machine ← get
  (Host.noteAll machine.stepEvents : m Unit)
  let (result, after) := machine.step
  set after
  match after.diagnostic with
  | some diagnostic => printLine diagnostic.message
  | none => pure ()
  pure result

def steps : Nat → Session m Ending
  | 0 => pure .exhausted
  | count + 1 => do
      match ← step with
      | .ok .running => steps count
      | .ok .halted =>
          printLine "program terminated"
          pure .halted
      | .error error =>
          printLine s!"error: {error.message}"
          pure .failed

def load (path : Path) : Session m Unit := do
  let machine ← get
  let (result, after) ← (machine.loadFile path : m _)
  set after
  match result with
  | .error error => printLine error.message
  | .ok file => do
      match file.unsaved with
      | some fault =>
          printLine s!"warning: assembled words were not saved: {fault.message}"
      | none => pure ()
      printLine "done"

def runToBudget : Session m Unit := do
  let budget := (← get).config.stepBudget
  match ← steps budget with
  | .exhausted => printLine s!"warning: step budget of {budget} exhausted"
  | _ => pure ()
  printLine "done"

def perform : Command → Session m Flow
  | .blank => pure .proceed
  | .load path => do
      load path
      pure .proceed
  | .loadNothing => do
      printLine "usage: load FILE"
      pure .proceed
  | .memory => do
      printLine (String.ofList (← get).memoryTable.text)
      pure .proceed
  | .registers => do
      printLine (String.ofList (← get).registerTable.text)
      pure .proceed
  | .step count => do
      let _ ← steps count
      printLine "done"
      pure .proceed
  | .stepUnclear => do
      printLine "invalid number of steps"
      pure .proceed
  | .run => do
      runToBudget
      pure .proceed
  | .reset => do
      modify Machine.reset
      printLine "done"
      pure .proceed
  | .help => do
      printLines helpLines
      pure .proceed
  | .quit => pure .quit
  | .unknown name => do
      let shown := String.ofList name
      printLine s!"unrecognized command: {shown}"
      pure .proceed

def execute (line : Text) : Session m Flow :=
  perform (Command.ofLine line)

def executeBytes (line : Bytes) : Session m Flow :=
  match Bytes.decode? line with
  | some text => execute text
  | none => throw .notUtf8

/-- Prompts for a line and executes it. Where no line is left, that is the end. -/
def turn (nextLine : Session m (Option Bytes)) : Session m Flow := do
  print prompt
  match ← nextLine with
  | some line => executeBytes line
  | none => pure .quit

/-- Takes turns up to the first line that quits. Lines after that are not looked at,
not even for their encoding. -/
def converse : List Bytes → Session m Unit
  | [] => do
      let _ ← turn (pure none)
      pure ()
  | line :: rest => do
      match ← turn (pure (some line)) with
      | .proceed => converse rest
      | .quit => pure ()

theorem converse_nil [LawfulMonad m] : (converse [] : Session m Unit) = print prompt := by
  simp [converse, turn]

theorem converse_cons [LawfulMonad m] (line : Bytes) (rest : List Bytes) :
    (converse (line :: rest) : Session m Unit) = (do
      print prompt
      match ← executeBytes line with
      | .proceed => converse rest
      | .quit => pure ()) := by
  simp [converse, turn]

/-- A conversation between the banner and the farewell. -/
def between (conversation : Session m Unit) : Session m Unit := do
  printLine banner
  conversation
  printLine "bye"

def inputLines (input : Bytes) : List Bytes :=
  splitLines 10 13 input

def control (input : Bytes) : Session m Unit :=
  between (converse (inputLines input))

end Session

end WordMachine.Console
