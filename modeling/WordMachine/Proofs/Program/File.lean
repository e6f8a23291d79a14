import WordMachine.Program.File
import WordMachine.World

namespace WordMachine

theorem World.bind_apply {α β : Type} (first : StateM World α) (next : α → StateM World β)
    (world : World) :
    (first >>= next) world = next (first world).1 (first world).2 := rfl

namespace ProgramFile

/-! Reading a program file in a world: which program is found, and what becomes
of the files. -/

def find (files : FileTree) (config : Config) (path : Path) :
    Except LoadError Program :=
  match files.read path with
  | .error fault => .error (.unreadable path fault)
  | .ok bytes =>
      match Bytes.decode? bytes with
      | none => .error (.unreadable path .notUtf8)
      | some text => (parse config path text).mapError .source

/-- The files after an attempt to save a program beside its source. -/
def saved (files : FileTree) (path : Path) (program : Program) :
    Except Fault FileTree :=
  if (imagePath path).same path then .error .sourceProtected
  else files.write (imagePath path) program.hexText.encode

def Saves (config : Config) (path : Path) : Prop :=
  isAssembly config path = true ∧ config.persist = true

instance (config : Config) (path : Path) : Decidable (Saves config path) :=
  inferInstanceAs (Decidable (_ ∧ _))

variable {config : Config} {path : Path} {program : Program} {world : World}

theorem find_eq_ok_iff {files : FileTree} :
    find files config path = .ok program ↔
      ∃ text : Text, files.read path = .ok text.encode ∧
        parse config path text = .ok program := by
  unfold find
  constructor
  · intro found
    split at found
    next => cases found
    next bytes readable =>
        split at found
        next => cases found
        next text decoded =>
            refine ⟨text, ?_, ?_⟩
            · rw [Bytes.decode?_eq_some_iff.mp decoded]
              exact readable
            · cases parsed : parse config path text with
              | error error => rw [parsed] at found; cases found
              | ok other => rw [parsed] at found; cases found; rfl
  · intro found
    obtain ⟨text, readable, parsed⟩ := found
    simp only [readable, Text.decode?_encode, parsed]
    rfl

theorem read_world :
    (read config path : StateM World _) world =
      match find world.files config path with
      | .error error => (.error error, world)
      | .ok program =>
          match (complete config path program : StateM World _) world with
          | (file, after) => (.ok file, after) := by
  have contents : (Host.readFile path : StateM World _) world =
      (world.files.read path, world) := rfl
  rw [read, World.bind_apply, contents]
  unfold find
  cases world.files.read path with
  | error fault => rfl
  | ok bytes =>
      simp only
      cases Bytes.decode? bytes with
      | none => rfl
      | some text =>
          simp only
          cases parse config path text with
          | error error => rfl
          | ok program => rfl

theorem complete_of_not_saves (kept : ¬ Saves config path) :
    ((complete config path program : StateM World _) world).1 = ⟨program, none⟩ ∧
      ((complete config path program : StateM World _) world).2.files =
        world.files := by
  unfold complete
  by_cases assembly : isAssembly config path = true
  · have noPersist : ¬ config.persist = true := fun persist =>
      kept ⟨assembly, persist⟩
    rw [if_pos assembly, if_neg noPersist]
    exact ⟨rfl, rfl⟩
  · rw [if_neg assembly]
    exact ⟨rfl, rfl⟩

private theorem writeImage_world :
    (writeImage path program : StateM World _) world =
      match saved world.files path program with
      | .ok files => (.ok (), { world with files := files })
      | .error fault => (.error fault, world) := by
  unfold writeImage saved
  by_cases same : (imagePath path).same path = true
  · rw [if_pos same, if_pos same]
    rfl
  · rw [if_neg same, if_neg same]
    change world.writeFile (imagePath path) program.hexText.encode = _
    unfold World.writeFile
    cases world.files.write (imagePath path) program.hexText.encode with
    | error fault => rfl
    | ok files => rfl

theorem complete_of_saves (saves : Saves config path) :
    (complete config path program : StateM World _) world =
      let assembled := world.note (.assembled program.words.length path)
      match saved world.files path program with
      | .ok files => (⟨program, none⟩, { assembled with files := files })
      | .error fault =>
          (⟨program, some fault⟩,
            assembled.note (.notSaved (imagePath path) fault)) := by
  obtain ⟨assembly, persist⟩ := saves
  have noted : (Host.note (.assembled program.words.length path) :
      StateM World _) world =
        ((), world.note (.assembled program.words.length path)) := rfl
  rw [complete, if_pos assembly, if_pos persist, World.bind_apply, noted,
    World.bind_apply, save, World.bind_apply, writeImage_world]
  have files : (world.note (.assembled program.words.length path)).files =
      world.files := rfl
  rw [files]
  cases saved world.files path program with
  | ok files => rfl
  | error fault => rfl

theorem program_complete (config : Config) (path : Path) (program : Program)
    (world : World) :
    ((complete config path program : StateM World _) world).1.program =
      program := by
  by_cases saves : Saves config path
  · rw [complete_of_saves saves]
    cases saved world.files path program with
    | ok files => rfl
    | error fault => rfl
  · rw [(complete_of_not_saves saves).1]

end ProgramFile

end WordMachine
