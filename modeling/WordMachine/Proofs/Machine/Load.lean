import WordMachine.Proofs.Machine.Source
import WordMachine.Proofs.Program.File

namespace WordMachine.Machine

/-! Loading a program into a machine, from a file or not: it replaces all that
belongs to the old program, or nothing at all. -/

structure Loaded (before : Machine) (program : Program) (after : Machine) :
    Prop where
  written : ∀ index word, program.words[index]? = some word →
    after.memory.cell index = word
  cleared : ∀ index, program.words.length ≤ index →
    after.memory.cell index = 0
  pc : after.pc = 0
  ir : after.processor.cpu.ir = 0
  lines : after.lines = program.lines
  config : after.config = before.config
  capacity : after.memory.capacity = before.memory.capacity
  registers : ∀ register, after.get register = before.get register
  diagnostic : after.diagnostic = before.diagnostic

variable {machine loaded : Machine} {program : Program}

theorem load_eq_ok_iff :
    machine.load program = .ok loaded ↔
      ∃ memory, machine.memory.loadImage program.words = .ok memory ∧
        loaded = { machine with
          memory := memory
          processor := machine.processor.rewind
          lines := program.lines } := by
  unfold load
  cases machine.memory.loadImage program.words with
  | error error => simp
  | ok memory => simp [eq_comm]

theorem loaded_of_load (load : machine.load program = .ok loaded) :
    machine.Loaded program loaded := by
  obtain ⟨memory, image, rfl⟩ := load_eq_ok_iff.mp load
  have cell := Memory.cell_of_loadImage image
  constructor
  case written =>
    intro index word found
    rw [cell, List.getD_eq_getElem?_getD, found]
    rfl
  case cleared =>
    intro index beyond
    rw [cell, List.getD_eq_getElem?_getD, List.getElem?_eq_none beyond]
    rfl
  case capacity => exact Memory.capacity_of_loadImage image
  all_goals intros; rfl

theorem exists_load_eq_ok_iff :
    (∃ loaded, machine.load program = .ok loaded) ↔
      program.words.length ≤ machine.memory.capacity := by
  constructor
  · intro loads
    obtain ⟨loaded, load⟩ := loads
    by_contra large
    have refused := load_eq_error_iff.mpr (Memory.loadImage_eq_error_iff.mpr
      ⟨Nat.lt_of_not_le large, rfl⟩)
    cases load.symm.trans refused
  · exact exists_load_eq_ok

theorem load_set (machine : Machine) (program : Program) (register : Register)
    (word : Word) :
    (machine.set register word).load program =
      (machine.load program).map fun loaded => loaded.set register word := by
  have memory : (machine.set register word).memory = machine.memory := rfl
  unfold load
  rw [memory]
  cases machine.memory.loadImage program.words with
  | error error => rfl
  | ok memory => rfl

section World

variable {path : Path} {world world' : World} {after : Machine}

theorem install_world :
    (machine.install program : StateM World _) world =
      match machine.load program with
      | .error error => ((.error error, machine), world)
      | .ok loaded =>
          ((.ok (), loaded), world.note (.loaded program.words.length)) := by
  unfold install
  cases machine.load program with
  | error error => rfl
  | ok loaded => rfl

theorem loadFile_world :
    (machine.loadFile path : StateM World _) world =
      match (ProgramFile.read machine.config path : StateM World _) world with
      | (.error error, world') => ((.error error, machine), world')
      | (.ok file, world') =>
          match machine.load file.program with
          | .error error => ((.error (.memory error), machine), world')
          | .ok loaded =>
              ((.ok file, loaded),
                world'.note (.loaded file.program.words.length)) := by
  rw [loadFile, World.bind_apply]
  rcases (ProgramFile.read machine.config path : StateM World _) world with
    ⟨_ | file, world'⟩
  · rfl
  · simp only
    rw [World.bind_apply, install_world]
    cases machine.load file.program with
    | error error => rfl
    | ok loaded => rfl

theorem install_eq_ok_iff :
    (machine.install program : StateM World _) world =
        ((.ok (), after), world') ↔
      machine.load program = .ok after ∧
        world' = world.note (.loaded program.words.length) := by
  rw [install_world]
  constructor
  · intro installed
    cases put : machine.load program with
    | error error =>
        rw [put] at installed
        cases installed
    | ok loaded =>
        rw [put] at installed
        cases installed
        exact ⟨rfl, rfl⟩
  · intro installed
    obtain ⟨put, rfl⟩ := installed
    rw [put]

private theorem eq_of_install_eq_error {error : MemoryError}
    (failed : (machine.install program : StateM World _) world =
      ((.error error, after), world')) : after = machine := by
  rw [install_world] at failed
  cases put : machine.load program with
  | error cause =>
      rw [put] at failed
      cases failed
      rfl
  | ok loaded =>
      rw [put] at failed
      cases failed

private theorem install_set (register : Register) (word : Word) :
    ((machine.set register word).install program : StateM World _) world =
      match (machine.install program : StateM World _) world with
      | ((result, after), world') => ((result, after.set register word), world') := by
  rw [install_world, install_world, load_set]
  cases machine.load program with
  | error error => rfl
  | ok loaded => rfl

private theorem loadFile_set (register : Register) (word : Word) :
    ((machine.set register word).loadFile path : StateM World _) world =
      match (machine.loadFile path : StateM World _) world with
      | ((result, after), world') => ((result, after.set register word), world') := by
  have config : (machine.set register word).config = machine.config := rfl
  rw [loadFile_world, loadFile_world, config]
  rcases (ProgramFile.read machine.config path : StateM World _) world with
    ⟨error | file, world'⟩
  · rfl
  · simp only [load_set]
    cases machine.load file.program with
    | error error => rfl
    | ok loaded => rfl

theorem loadFile_of_error {error : LoadError}
    (failed : ProgramFile.find world.files machine.config path = .error error) :
    (machine.loadFile path : StateM World _) world =
      ((.error error, machine), world) := by
  rw [loadFile_world, ProgramFile.read_world, failed]

theorem loadFile_of_ok
    (found : ProgramFile.find world.files machine.config path = .ok program) :
    (machine.loadFile path : StateM World _) world =
      let completed := (ProgramFile.complete machine.config path program :
        StateM World _) world
      match machine.load program with
      | .error error => ((.error (.memory error), machine), completed.2)
      | .ok loaded =>
          ((.ok completed.1, loaded),
            completed.2.note (.loaded program.words.length)) := by
  have kept := ProgramFile.program_complete machine.config path program world
  rw [loadFile_world, ProgramFile.read_world, found]
  rcases completed : (ProgramFile.complete machine.config path program :
    StateM World _) world with ⟨file, world'⟩
  have same : file.program = program := by
    rw [← kept, completed]
  simp only [completed, same]

theorem eq_of_loadFile_eq_error {error : LoadError}
    (failed : (machine.loadFile path : StateM World _) world =
      ((.error error, after), world')) : after = machine := by
  cases found : ProgramFile.find world.files machine.config path with
  | error cause =>
      rw [loadFile_of_error found] at failed
      cases failed
      rfl
  | ok program =>
      rw [loadFile_of_ok found] at failed
      cases put : machine.load program with
      | error cause =>
          rw [put] at failed
          cases failed
          rfl
      | ok loaded =>
          rw [put] at failed
          cases failed

theorem loadFile_eq_ok {file : ProgramFile}
    (load : (machine.loadFile path : StateM World _) world =
      ((.ok file, after), world')) :
    ProgramFile.find world.files machine.config path = .ok file.program ∧
      machine.load file.program = .ok after := by
  cases found : ProgramFile.find world.files machine.config path with
  | error cause =>
      rw [loadFile_of_error found] at load
      cases load
  | ok program =>
      have kept := ProgramFile.program_complete machine.config path program world
      rw [loadFile_of_ok found] at load
      cases put : machine.load program with
      | error cause =>
          rw [put] at load
          cases load
      | ok loaded =>
          rw [put] at load
          cases load
          rw [kept]
          exact ⟨rfl, put⟩

theorem exists_loadFile_eq_ok_iff :
    (∃ file after world', (machine.loadFile path : StateM World _) world =
      ((.ok file, after), world')) ↔
      ∃ text program, world.files.read path = .ok (Text.encode text) ∧
        ProgramFile.parse machine.config path text = .ok program ∧
        program.words.length ≤ machine.memory.capacity := by
  constructor
  · intro loads
    obtain ⟨file, after, world', load⟩ := loads
    obtain ⟨found, put⟩ := loadFile_eq_ok load
    obtain ⟨text, readable, parsed⟩ := ProgramFile.find_eq_ok_iff.mp found
    exact ⟨text, file.program, readable, parsed,
      exists_load_eq_ok_iff.mp ⟨after, put⟩⟩
  · intro fitting
    obtain ⟨text, program, readable, parsed, fits⟩ := fitting
    have found := ProgramFile.find_eq_ok_iff.mpr ⟨text, readable, parsed⟩
    obtain ⟨loaded, put⟩ := exists_load_eq_ok_iff.mpr fits
    have load := @loadFile_of_ok machine program path world found
    rw [put] at load
    exact ⟨_, _, _, load⟩

private theorem sourceLine_eq_none (unmapped : machine.lines = none) (address : Word) :
    machine.sourceLine address = none := by
  unfold sourceLine
  rw [unmapped, Option.bind_none, ite_self]

private theorem lines_of_image {file : ProgramFile}
    (image : ProgramFile.isAssembly machine.config path = false)
    (load : (machine.loadFile path : StateM World _) world =
      ((.ok file, after), world')) : after.lines = none := by
  obtain ⟨found, put⟩ := loadFile_eq_ok load
  obtain ⟨text, _, parsed⟩ := ProgramFile.find_eq_ok_iff.mp found
  rw [ProgramFile.parse, if_neg (Bool.eq_false_iff.mp image)] at parsed
  rw [lines_of_load put, Program.lines_of_ofHexImage parsed]

end World

/-- A load that fails leaves the machine as it was, whatever was written to the
files by then. A load that succeeds puts its program in place of the old one and
keeps the registers and the last diagnostic, and it does not read them. -/
theorem load_is_all_or_nothing (machine : Machine) (world : World) :
    (∀ program,
      (∀ error after world',
        (machine.install program : StateM World _) world =
          ((.error error, after), world') → after = machine) ∧
      (∀ after world',
        (machine.install program : StateM World _) world =
          ((.ok (), after), world') →
        machine.Loaded program after ∧
        ∀ register word,
          ((machine.set register word).install program : StateM World _) world =
            ((.ok (), after.set register word), world')) ∧
      ((∃ after world', (machine.install program : StateM World _) world =
          ((.ok (), after), world')) ↔
        program.words.length ≤ machine.memory.capacity)) ∧
    ∀ path,
      (∀ error after world',
        (machine.loadFile path : StateM World _) world =
          ((.error error, after), world') → after = machine) ∧
      (∀ file after world',
        (machine.loadFile path : StateM World _) world =
          ((.ok file, after), world') →
        (∃ text : Text, world.files.read path = .ok text.encode ∧
          ProgramFile.parse machine.config path text = .ok file.program) ∧
        machine.Loaded file.program after ∧
        (ProgramFile.isAssembly machine.config path = false →
          ∀ address, after.sourceLine address = none) ∧
        ∀ register word,
          ((machine.set register word).loadFile path : StateM World _) world =
            ((.ok file, after.set register word), world')) ∧
      ((∃ file after world', (machine.loadFile path : StateM World _) world =
          ((.ok file, after), world')) ↔
        ∃ text program, world.files.read path = .ok (Text.encode text) ∧
          ProgramFile.parse machine.config path text = .ok program ∧
          program.words.length ≤ machine.memory.capacity) := by
  constructor
  · intro program
    refine ⟨?_, ?_, ?_⟩
    · intro error after world' failed
      exact eq_of_install_eq_error failed
    · intro after world' installed
      refine ⟨loaded_of_load (install_eq_ok_iff.mp installed).1, ?_⟩
      intro register word
      rw [install_set, installed]
    · simp only [install_eq_ok_iff, ← exists_load_eq_ok_iff, exists_and_left,
        exists_eq, and_true]
  · intro path
    refine ⟨?_, ?_, exists_loadFile_eq_ok_iff⟩
    · intro error after world' failed
      exact eq_of_loadFile_eq_error failed
    · intro file after world' load
      obtain ⟨found, put⟩ := loadFile_eq_ok load
      refine ⟨ProgramFile.find_eq_ok_iff.mp found, loaded_of_load put, ?_, ?_⟩
      · intro image address
        exact sourceLine_eq_none (lines_of_image image load) address
      · intro register word
        rw [loadFile_set, load]

/-- Two words for a memory of one cell, in a file below the root: the image is saved
beside it, but not loaded. -/
theorem load_is_all_or_nothing_of_saved :
    let machine := (Machine.new
      { Config.defaults with capacity := 1, persist := true }).set 3 7
    let source : Text := ['h', 'a', 'l', 't', '\n', '5', '\n']
    let name : Text := ['p', '.', 'a', 's', 'm']
    let path : Path := .ofText ('/' :: name)
    let world := World.new (FileTree.empty.add [name.encode] (.file source.encode)) none
    let outcome := (machine.loadFile path : StateM World _) world
    outcome.1 = (.error (.memory (.imageTooLarge 2 1)), machine) ∧
      outcome.2.files.read (.ofText ['/', 'p', '.', 'h', 'e', 'x']) =
        .ok (Program.ofWords [0, 5]).hexText.encode := by
  intro machine source name path world outcome
  have found : ProgramFile.find world.files machine.config path =
      .ok ⟨[0, 5], some [1, 2]⟩ :=
    ProgramFile.find_eq_ok_iff.mpr ⟨source, rfl, rfl⟩
  have failed : outcome.1.1 = .error (.memory (.imageTooLarge 2 1)) := by
    simp only [outcome, loadFile_of_ok found]
    rfl
  have kept : outcome.1.2 = machine :=
    ((load_is_all_or_nothing machine world).2 path).1 _ _ outcome.2
      (Prod.ext (Prod.ext failed rfl) rfl)
  have saves : ProgramFile.Saves machine.config path := by decide
  refine ⟨Prod.ext failed kept, ?_⟩
  simp only [outcome, loadFile_of_ok found, ProgramFile.complete_of_saves saves]
  rfl

end WordMachine.Machine
