import WordMachine.Proofs.Machine.Load
import WordMachine.Proofs.Program.HexText
import WordMachine.Proofs.Program.Save

namespace WordMachine

/-! A program that was saved beside its source runs from the saved image as it
does from the source. Only source lines tell the two machines apart. -/

namespace ProgramFile

/-- The text of a program gives its words back, also where the extension of
images is that of assembly. -/
theorem parse_hexText (config : Config) (path : Path) (program : Program) :
    ∃ reread, parse config path program.hexText = .ok reread ∧
      reread.words = program.words := by
  rw [parse]
  split
  next => exact ⟨_, Program.assemble_hexText program, rfl⟩
  next => exact ⟨_, Program.ofHexImage_hexText program, rfl⟩

private theorem read_imagePath_of_saved {config : Config} {path : Path} {world : World}
    {file : ProgramFile} (saves : Saves config path)
    (returned : ((read config path : StateM World _) world).1 = .ok file)
    (saved : file.unsaved = none) :
    ((read config path : StateM World _) world).2.files.read (imagePath path) =
      .ok file.program.hexText.encode := by
  have outcome := read_outcome config path world
  rw [returned] at outcome
  generalize ((read config path : StateM World _) world).2.files = after at outcome
  cases outcome with
  | kept found noSave => exact absurd saves noSave
  | written found _ save =>
      exact FileTree.read_of_write (image_of_saved_eq_ok found saves save).2.2
  | unwritten found _ save => cases saved

end ProgramFile

namespace Event

def isLineless : Event → Bool
  | .sourceLine _ => false
  | _ => true

end Event

namespace Machine

/-- Machines that differ in nothing that an operation reads, source lines apart. -/
structure Twins (first second : Machine) : Prop where
  memory : second.memory = first.memory
  processor : second.processor = first.processor
  budget : second.config.stepBudget = first.config.stepBudget

variable {first second : Machine}

theorem Twins.step (twins : first.Twins second) :
    second.step.1 = first.step.1 ∧ first.step.2.Twins second.step.2 := by
  simp only [Machine.step, twins.memory, twins.processor]
  exact ⟨trivial, rfl, rfl, twins.budget⟩

theorem Twins.runFrom (twins : first.Twins second) (executed budget : Nat) :
    (runFrom executed budget second).1 = (runFrom executed budget first).1 ∧
      (runFrom executed budget first).2.Twins
        (runFrom executed budget second).2 := by
  induction budget generalizing executed first second with
  | zero => exact ⟨rfl, twins⟩
  | succ budget induction =>
      obtain ⟨same, next⟩ := twins.step
      rcases stepped : first.step with ⟨result, after⟩
      rcases stepped' : second.step with ⟨result', after'⟩
      rw [stepped, stepped'] at same next
      obtain rfl : result' = result := same
      simp only [Machine.runFrom, stepped, stepped']
      rcases result' with error | _ | _
      · exact ⟨rfl, next⟩
      · exact induction next (executed + 1)
      · exact ⟨rfl, next⟩

theorem Twins.load (twins : first.Twins second) (program : Program) :
    (∃ error, first.load program = .error error ∧
      second.load program = .error error) ∨
    ∃ loaded loaded', first.load program = .ok loaded ∧
      second.load program = .ok loaded' ∧ loaded.Twins loaded' := by
  unfold Machine.load
  rw [twins.memory, twins.processor]
  cases first.memory.loadImage program.words with
  | error error => exact .inl ⟨error, rfl, rfl⟩
  | ok memory => exact .inr ⟨_, _, rfl, rfl, rfl, rfl, twins.budget⟩

theorem Twins.perform (twins : first.Twins second) (operation : Operation) :
    (second.perform operation).1 = (first.perform operation).1 ∧
      (first.perform operation).2.Twins (second.perform operation).2 := by
  have pc : second.pc = first.pc := congrArg (·.cpu.pc) twins.processor
  cases operation with
  | load program =>
      simp only [Machine.perform]
      rcases twins.load program with ⟨error, load, load'⟩ |
        ⟨loaded, loaded', load, load', next⟩
      · rw [load, load']
        exact ⟨rfl, twins⟩
      · rw [load, load']
        exact ⟨rfl, next⟩
  | step =>
      obtain ⟨same, next⟩ := twins.step
      exact ⟨congrArg Answer.ofStep same, next⟩
  | run budget =>
      obtain ⟨same, next⟩ := twins.runFrom 0 budget
      exact ⟨congrArg Answer.ofRun same, next⟩
  | runToHalt =>
      obtain ⟨same, next⟩ := twins.runFrom 0 first.config.stepBudget
      simp only [Machine.perform, run, twins.budget]
      exact ⟨congrArg Answer.ofRun same, next⟩
  | reset =>
      exact ⟨rfl, congrArg Memory.clear twins.memory, rfl, twins.budget⟩
  | setPc address =>
      exact ⟨rfl, twins.memory, congrArg (·.setPc address) twins.processor,
        twins.budget⟩
  | set register word =>
      exact ⟨rfl, twins.memory, congrArg (·.set register word) twins.processor,
        twins.budget⟩
  | get register =>
      have same : second.get register = first.get register :=
        congrArg (Processor.get · register) twins.processor
      exact ⟨congrArg Answer.word same, twins⟩
  | memory operation =>
      simp only [Machine.perform, twins.memory]
      exact ⟨rfl, rfl, twins.processor, twins.budget⟩
  | memoryTable =>
      simp only [Machine.perform, Machine.memoryTable, twins.memory, pc]
      exact ⟨trivial, twins⟩
  | registerTable =>
      simp only [Machine.perform, Machine.registerTable, twins.processor]
      exact ⟨trivial, twins⟩
  | display =>
      simp only [Machine.perform, Machine.display, Machine.displayBy,
        Machine.memoryTable, Machine.registerTable, twins.memory, twins.processor, pc]
      exact ⟨trivial, twins⟩

theorem Twins.after (twins : first.Twins second) (history : List Operation) :
    (first.after history).Twins (second.after history) := by
  induction history generalizing first second with
  | nil => exact twins
  | cons operation rest induction => exact induction (twins.perform operation).2

theorem Twins.stepEvents (twins : first.Twins second) :
    second.stepEvents.filter Event.isLineless =
      first.stepEvents.filter Event.isLineless := by
  have lineless : ∀ line? : Option Nat,
      (line?.toList.map Event.sourceLine).filter Event.isLineless = [] := by
    intro line?
    cases line? with
    | none => rfl
    | some line => rfl
  have pc : second.pc = first.pc := congrArg (·.cpu.pc) twins.processor
  have raised : second.step.2.diagnostic = first.step.2.diagnostic :=
    congrArg Processor.diagnostic twins.step.2.processor
  simp only [Machine.stepEvents, List.filter_append, lineless, pc, raised,
    twins.memory, twins.processor]

theorem Twins.runEvents (twins : first.Twins second) (budget : Nat) :
    (runEvents budget second).filter Event.isLineless =
      (runEvents budget first).filter Event.isLineless := by
  induction budget generalizing first second with
  | zero => rfl
  | succ budget induction =>
      obtain ⟨same, next⟩ := twins.step
      rcases stepped : first.step with ⟨result, after⟩
      rcases stepped' : second.step with ⟨result', after'⟩
      rw [stepped, stepped'] at same next
      obtain rfl : result' = result := same
      simp only [Machine.runEvents, List.filter_append, twins.stepEvents,
        stepped, stepped']
      rcases result' with error | _ | _
      · rfl
      · rw [induction next]
      · rfl

theorem Twins.events (twins : first.Twins second) (operation : Operation) :
    (second.events operation).filter Event.isLineless =
      (first.events operation).filter Event.isLineless := by
  cases operation with
  | load program =>
      simp only [Machine.events]
      rcases twins.load program with ⟨error, load, load'⟩ |
        ⟨loaded, loaded', load, load', -⟩
      · rw [load, load']
      · rw [load, load']
  | step => exact twins.stepEvents
  | run budget => exact twins.runEvents budget
  | runToHalt =>
      simp only [Machine.events, twins.budget]
      exact twins.runEvents first.config.stepBudget
  | _ => rfl

/-- Two new machines of one size and one budget that load the same words. -/
theorem twins_of_load {config config' : Config} {program program' : Program}
    {loaded : Machine} (capacity : config'.capacity = config.capacity)
    (budget : config'.stepBudget = config.stepBudget)
    (words : program'.words = program.words)
    (load : (new config).load program = .ok loaded) :
    ∃ loaded', (new config').load program' = .ok loaded' ∧
      loaded.Twins loaded' := by
  obtain ⟨memory, image, rfl⟩ := load_eq_ok_iff.mp load
  have image' : (new config').memory.loadImage program'.words = .ok memory := by
    rw [words, ← image, new, capacity]
    rfl
  exact ⟨_, load_eq_ok_iff.mpr ⟨memory, image', rfl⟩, rfl, rfl, budget⟩

private theorem read_of_loadFile {machine after : Machine} {path : Path}
    {file : ProgramFile} {world world' : World}
    (load : (machine.loadFile path : StateM World _) world =
      ((.ok file, after), world')) :
    ((ProgramFile.read machine.config path : StateM World _) world).1 =
        .ok file ∧
      ((ProgramFile.read machine.config path : StateM World _) world).2.files =
        world'.files := by
  rw [loadFile_world] at load
  rcases read : (ProgramFile.read machine.config path : StateM World _) world
    with ⟨_ | found, middle⟩
  · rw [read] at load
    cases load
  · rw [read] at load
    simp only at load
    cases put : machine.load found.program with
    | error error =>
        rw [put] at load
        cases load
    | ok loaded =>
        rw [put] at load
        cases load
        exact ⟨rfl, rfl⟩

/-- A program that was saved when its source was loaded is loaded from its image
by every machine of that size, however it is configured. With the same budget,
the two machines stay in one state and give the same answers through every
history of operations. Their journals differ in source lines only. -/
theorem saved_program_runs_like_its_source {config other : Config} {path : Path}
    {world world' later : World} {file : ProgramFile} {first : Machine}
    (saves : ProgramFile.Saves config path)
    (load : ((new config).loadFile path : StateM World _) world =
      ((.ok file, first), world'))
    (saved : file.unsaved = none) (kept : later.files = world'.files)
    (capacity : other.capacity = config.capacity)
    (budget : other.stepBudget = config.stepBudget) :
    ∃ image second later',
      ((new other).loadFile (ProgramFile.imagePath path) : StateM World _) later =
        ((.ok image, second), later') ∧
      image.program.words = file.program.words ∧
      ∀ history, (first.after history).Twins (second.after history) ∧
        ∀ operation,
          ((second.after history).perform operation).1 =
              ((first.after history).perform operation).1 ∧
            ((second.after history).events operation).filter Event.isLineless =
              ((first.after history).events operation).filter
                Event.isLineless := by
  obtain ⟨returned, files⟩ := read_of_loadFile load
  have written := ProgramFile.read_imagePath_of_saved saves returned saved
  obtain ⟨reread, parsed, words⟩ :=
    ProgramFile.parse_hexText other (ProgramFile.imagePath path) file.program
  have found : ProgramFile.find later.files (new other).config
      (ProgramFile.imagePath path) = .ok reread := by
    refine ProgramFile.find_eq_ok_iff.mpr ⟨_, ?_, parsed⟩
    rw [kept, ← files]
    exact written
  obtain ⟨second, put, twins⟩ :=
    twins_of_load capacity budget words (loadFile_eq_ok load).2
  have reload := loadFile_of_ok found
  rw [put] at reload
  refine ⟨_, second, _, reload, ?_, ?_⟩
  · rw [ProgramFile.program_complete]
    exact words
  · intro history
    have alike := twins.after history
    exact ⟨alike, fun operation =>
      ⟨(alike.perform operation).1, alike.events operation⟩⟩

/-- An image below the root is assembled in its turn, and refuses to be saved over
itself. -/
theorem saved_program_runs_like_its_source_of_assembled_image :
    let config := { Config.defaults with persist := true }
    let other := { config with assemblyExtension := ['H', 'E', 'X'] }
    let source : Text := ['l', 'o', 'a', 'd', 'c', ' ', '3', '\n', 'A', '\n',
      '#', '\n', 'h', 'a', 'l', 't']
    let name : Text := ['p', '.', 'a', 's', 'm']
    let path : Path := .ofText ('/' :: name)
    let image : Path := .ofText ['/', 'p', '.', 'h', 'e', 'x']
    let world := World.new (FileTree.empty.add [name.encode] (.file source.encode)) none
    let outcome := ((new config).loadFile path : StateM World _) world
    ProgramFile.isAssembly other image = true ∧
      outcome.1.1 = .ok ⟨⟨[0x230, 0xA, 0], some [1, 2, 4]⟩, none⟩ ∧
      ∃ file second later,
        ((new other).loadFile image : StateM World _) outcome.2 =
          ((.ok file, second), later) ∧
        file.program.words = [0x230, 0xA, 0] ∧
        (outcome.1.2.after [.runToHalt]).Twins (second.after [.runToHalt]) := by
  intro config other source name path image world outcome
  have saves : ProgramFile.Saves config path := by decide
  have found : ProgramFile.find world.files config path =
      .ok ⟨[0x230, 0xA, 0], some [1, 2, 4]⟩ :=
    ProgramFile.find_eq_ok_iff.mpr ⟨source, rfl, rfl⟩
  have returned : outcome.1.1 =
      .ok ⟨⟨[0x230, 0xA, 0], some [1, 2, 4]⟩, none⟩ := by
    have load := @loadFile_of_ok (new config) _ path world found
    simp only [outcome, load]
    rfl
  obtain ⟨file, second, later, reload, words, alike⟩ :=
    @saved_program_runs_like_its_source config other path world outcome.2
      outcome.2 _ outcome.1.2 saves (Prod.ext (Prod.ext returned rfl) rfl) rfl
      rfl rfl rfl
  exact ⟨by decide, returned, file, second, later, reload, words, (alike _).1⟩

end Machine

end WordMachine
