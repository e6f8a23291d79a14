import WordMachine.Host
import WordMachine.Machine.Basic
import WordMachine.Program.HexImage
import WordMachine.Program.Source

namespace WordMachine

/-! Program files. The extension of a path tells assembly from images, and an
assembled program may be saved beside its source. A save that fails does not
fail the load. -/

inductive LoadError where
  | unreadable (path : Path) (fault : Fault)
  | source (error : SourceError)
  | memory (error : MemoryError)
  deriving DecidableEq, Repr

/-- A program that was read from a file, and why it could not be saved, if it
had to be and could not. -/
structure ProgramFile where
  program : Program
  unsaved : Option Fault
  deriving DecidableEq, Repr

namespace LoadError

def message : LoadError → String
  | .unreadable path fault => s!"could not read {path.shown}: {fault.message}"
  | .source error => error.message
  | .memory error => error.message

end LoadError

namespace ProgramFile

def imageExtension : Bytes :=
  Text.encode ['h', 'e', 'x']

/-- Whether the extension is that of assembly. One that is not UTF-8 is not. -/
def isAssembly (config : Config) (path : Path) : Bool :=
  match path.extension?.bind Bytes.decode? with
  | some extension => extension.sameLetters config.assemblyExtension
  | none => false

def imagePath (path : Path) : Path :=
  path.withExtension imageExtension

def parse (config : Config) (path : Path) (text : Text) :
    Except SourceError Program :=
  if isAssembly config path then Program.assemble text else Program.ofHexImage text

variable {m : Type → Type} [Monad m] [Host m]

/-- Saves an image under its own path, which must not be that of its source. -/
def writeImage (path : Path) (program : Program) : m (Except Fault Unit) :=
  if (imagePath path).same path then pure (.error .sourceProtected)
  else Host.writeFile (imagePath path) program.hexText.encode

def save (path : Path) (program : Program) : m (Option Fault) := do
  match ← writeImage path program with
  | .ok () => pure none
  | .error fault =>
      Host.note (.notSaved (imagePath path) fault)
      pure (some fault)

/-- What follows a successful parse: the journal and, for assembly, the save. -/
def complete (config : Config) (path : Path) (program : Program) : m ProgramFile :=
  if isAssembly config path then do
    Host.note (.assembled program.words.length path)
    if config.persist then
      let unsaved ← save path program
      pure ⟨program, unsaved⟩
    else
      pure ⟨program, none⟩
  else do
    Host.note (.imageRead program.words.length path)
    pure ⟨program, none⟩

def read (config : Config) (path : Path) : m (Except LoadError ProgramFile) := do
  match ← Host.readFile path with
  | .error fault => pure (.error (.unreadable path fault))
  | .ok bytes =>
      match Bytes.decode? bytes with
      | none => pure (.error (.unreadable path .notUtf8))
      | some text =>
          match parse config path text with
          | .error error => pure (.error (.source error))
          | .ok program => do
              let file ← complete config path program
              pure (.ok file)

end ProgramFile

namespace Machine

variable {m : Type → Type} [Monad m] [Host m]

/-- Loads a program and records that in the journal. -/
def install (machine : Machine) (program : Program) :
    m (Except MemoryError Unit × Machine) :=
  match machine.load program with
  | .error error => pure (.error error, machine)
  | .ok loaded => do
      Host.note (.loaded program.words.length)
      pure (.ok (), loaded)

def loadFile (machine : Machine) (path : Path) :
    m (Except LoadError ProgramFile × Machine) := do
  match ← ProgramFile.read machine.config path with
  | .error error => pure (.error error, machine)
  | .ok file =>
      match ← machine.install file.program with
      | (.error error, after) => pure (.error (.memory error), after)
      | (.ok (), after) => pure (.ok file, after)

end Machine

end WordMachine
