import WordMachine.Proofs.Program.File
import WordMachine.Proofs.Storage.FileTree

namespace WordMachine.ProgramFile

/-! What reading a program file does to the files: at most the image is written
beside its source, and never over it. -/

variable {config : Config} {path : Path} {program : Program} {files : FileTree}
  {bytes : Bytes} {front : List Bytes} {stem extension : Bytes}

/-- The file name whose image would be the directory above. -/
def dotImage : Bytes :=
  Path.dot :: Path.dot :: imageExtension

theorem exists_extension_of_isAssembly
    (assembly : isAssembly config path = true) :
    ∃ extension, path.extension? = some extension := by
  unfold isAssembly at assembly
  split at assembly
  next found =>
      obtain ⟨extension, named, _⟩ := Option.bind_eq_some_iff.mp found
      exact ⟨extension, named⟩
  next => cases assembly

theorem exists_named_of_read (readable : files.read path = .ok bytes)
    (found : path.extension? = some extension) :
    ∃ front stem, path.Named front stem extension := by
  obtain ⟨front, name, split⟩ := path.exists_segments_eq_concat
  have solid := FileTree.isVoid_of_read split readable
  obtain ⟨stem, named⟩ := Path.exists_named split solid found
  exact ⟨front, stem, named⟩

theorem segments_imagePath (named : path.Named front stem extension) :
    (imagePath path).segments = front ++ [Path.renamed stem imageExtension] :=
  named.segments_withExtension imageExtension (by decide)

theorem imagePath_same_iff (named : path.Named front stem extension) :
    (imagePath path).same path = true ↔
      stem ≠ Path.here ∧ imageExtension = extension :=
  named.withExtension_same_iff (by decide)

theorem fileName?_eq_dotImage_iff (named : path.Named front stem imageExtension) :
    path.fileName? = some dotImage ↔ stem = Path.here := by
  rw [named.fileName?, Option.some.injEq]
  exact @List.append_left_inj _ stem Path.here (Path.dot :: imageExtension)

private theorem write_dotImage (named : path.Named front Path.here imageExtension)
    (readable : files.read path = .ok bytes) (contents : Bytes) :
    files.write (imagePath path) contents = .error .isDirectory := by
  obtain ⟨checked, folder, walked, inside, -⟩ :=
    (FileTree.read_of_segments named.segments named.solid named.noUp).mp readable
  have split := segments_imagePath named
  have shorter : (imagePath path).bytes <+: path.bytes := by
    rw [Path.bytes_of_segments split, Path.bytes_of_segments named.segments]
    exact ⟨imageExtension, by simp [Path.renamed, Path.up, Path.here]⟩
  have present : (imagePath path).bytes ≠ [] := by
    rw [Path.bytes_of_segments split]
    simp [Path.renamed, Path.up]
  have together : files.start (imagePath path) = files.start path :=
    FileTree.start_of_segments named.segments split
  have aimed : files.target (imagePath path) = .error .isDirectory :=
    FileTree.target_up split
      (FileTree.checkPath_of_prefix checked shorter present)
      (together ▸ walked) inside
  rw [FileTree.write, aimed]
  rfl

theorem saved_of_extension (readable : files.read path = .ok bytes)
    (found : path.extension? = some extension)
    (other : extension ≠ imageExtension) :
    saved files path program =
      files.write (imagePath path) program.hexText.encode := by
  obtain ⟨front, stem, named⟩ := exists_named_of_read readable found
  rw [saved, if_neg]
  intro same
  exact other ((imagePath_same_iff named).mp same).2.symm

theorem saved_of_imageExtension (readable : files.read path = .ok bytes)
    (found : path.extension? = some imageExtension) :
    saved files path program =
      .error (if path.fileName? = some dotImage then .isDirectory
        else .sourceProtected) := by
  obtain ⟨front, stem, named⟩ := exists_named_of_read readable found
  have special := fileName?_eq_dotImage_iff named
  unfold saved
  by_cases dot : stem = Path.here
  · have distinct : ¬ (imagePath path).same path = true := fun same =>
      ((imagePath_same_iff named).mp same).1 dot
    subst dot
    rw [if_neg distinct, if_pos (special.mpr rfl)]
    exact write_dotImage named readable _
  · rw [if_pos ((imagePath_same_iff named).mpr ⟨dot, rfl⟩),
      if_neg (mt special.mp dot)]

private theorem read_of_saved {after : FileTree}
    (readable : files.read path = .ok bytes)
    (found : path.extension? = some extension)
    (save : saved files path program = .ok after) :
    after.read path = .ok bytes := by
  obtain ⟨front, stem, named⟩ := exists_named_of_read readable found
  unfold saved at save
  split at save
  next => cases save
  next distinct =>
      refine FileTree.read_of_write_of_ne named.segments
        (segments_imagePath named) named.solid named.noUp ?_ readable save
      intro same
      exact distinct ((imagePath_same_iff named).mpr
        (named.renamed_eq_iff.mp same))

inductive Outcome (config : Config) (path : Path) (files : FileTree) :
    Except LoadError ProgramFile → FileTree → Prop
  | failed {error : LoadError} (refused : find files config path = .error error) :
      Outcome config path files (.error error) files
  | kept {program : Program} (found : find files config path = .ok program)
      (noSave : ¬ Saves config path) :
      Outcome config path files (.ok ⟨program, none⟩) files
  | written {program : Program} {after : FileTree}
      (found : find files config path = .ok program) (saves : Saves config path)
      (save : saved files path program = .ok after) :
      Outcome config path files (.ok ⟨program, none⟩) after
  | unwritten {program : Program} {fault : Fault}
      (found : find files config path = .ok program) (saves : Saves config path)
      (save : saved files path program = .error fault) :
      Outcome config path files (.ok ⟨program, some fault⟩) files

theorem read_outcome (config : Config) (path : Path) (world : World) :
    Outcome config path world.files
      ((read config path : StateM World _) world).1
      ((read config path : StateM World _) world).2.files := by
  rw [read_world]
  cases found : find world.files config path with
  | error error => exact .failed found
  | ok program =>
      by_cases saves : Saves config path
      · simp only [complete_of_saves saves]
        cases save : saved world.files path program with
        | error fault => exact .unwritten found saves save
        | ok after => exact .written found saves save
      · obtain ⟨result, unchanged⟩ :=
          @complete_of_not_saves config path program world saves
        change Outcome config path world.files
          (.ok ((complete config path program : StateM World _) world).1)
          ((complete config path program : StateM World _) world).2.files
        rw [result, unchanged]
        exact .kept found saves

/-- What a read leaves of the files, and of the image that it may write. -/
structure Spares (config : Config) (path : Path) (files : FileTree)
    (result : Except LoadError ProgramFile) (after : FileTree) : Prop where
  others : ∀ location, files.target (imagePath path) ≠ .ok location →
    after.find? location = files.find? location
  source : after.read path = files.read path
  failed : ∀ error, result = .error error → after = files
  changed : after ≠ files →
    Saves config path ∧ path.extension? ≠ some imageExtension
  image : ∀ file, result = .ok file → Saves config path →
    path.extension? ≠ some imageExtension →
      (file.unsaved = none ∧
        files.write (imagePath path) file.program.hexText.encode = .ok after ∧
        after.read (imagePath path) = .ok file.program.hexText.encode) ∨
      ∃ fault, file.unsaved = some fault ∧
        files.write (imagePath path) file.program.hexText.encode = .error fault ∧
        after = files
  refused : ∀ text program, files.read path = .ok (Text.encode text) →
    parse config path text = .ok program → Saves config path →
    path.extension? = some imageExtension →
      result = .ok ⟨program, some (if path.fileName? = some dotImage
        then .isDirectory else .sourceProtected)⟩ ∧ after = files

variable {result : Except LoadError ProgramFile} {after : FileTree}

theorem image_of_saved_eq_ok
    (found : find files config path = .ok program) (saves : Saves config path)
    (save : saved files path program = .ok after) :
    path.extension? ≠ some imageExtension ∧ after.read path = files.read path ∧
      files.write (imagePath path) program.hexText.encode = .ok after := by
  obtain ⟨text, readable, -⟩ := find_eq_ok_iff.mp found
  obtain ⟨extension, named⟩ := exists_extension_of_isAssembly saves.1
  have other : extension ≠ imageExtension := by
    rintro rfl
    rw [saved_of_imageExtension readable named] at save
    cases save
  refine ⟨?_, ?_, ?_⟩
  · rw [named]
    exact fun same => other (Option.some.inj same)
  · rw [read_of_saved readable named save, readable]
  · rw [← saved_of_extension readable named other]
    exact save

/-- The fault of a save that fails: that of the write, unless the extension is
that of an image. -/
theorem image_of_saved_eq_error {fault : Fault}
    (found : find files config path = .ok program) (saves : Saves config path)
    (save : saved files path program = .error fault) :
    (path.extension? ≠ some imageExtension →
      files.write (imagePath path) program.hexText.encode = .error fault) ∧
    (path.extension? = some imageExtension →
      fault = if path.fileName? = some dotImage then .isDirectory
        else .sourceProtected) := by
  obtain ⟨text, readable, -⟩ := find_eq_ok_iff.mp found
  obtain ⟨extension, named⟩ := exists_extension_of_isAssembly saves.1
  constructor
  · intro other
    have differs : extension ≠ imageExtension := by
      rintro rfl
      exact other named
    rw [← saved_of_extension readable named differs]
    exact save
  · intro same
    rw [saved_of_imageExtension readable same] at save
    exact (Except.error.inj save).symm

theorem Spares.of_unchanged
    (image : ∀ file, result = .ok file → Saves config path →
      path.extension? ≠ some imageExtension →
        ∃ fault, file.unsaved = some fault ∧
          files.write (imagePath path) file.program.hexText.encode = .error fault)
    (refused : ∀ program, find files config path = .ok program →
      Saves config path → path.extension? = some imageExtension →
        result = .ok ⟨program, some (if path.fileName? = some dotImage
          then .isDirectory else .sourceProtected)⟩) :
    Spares config path files result files := by
  constructor
  case others => exact fun _ _ => rfl
  case source => rfl
  case failed => exact fun _ _ => rfl
  case changed => exact fun different => absurd rfl different
  case image =>
    intro file returned saves other
    obtain ⟨fault, unsaved, write⟩ := image file returned saves other
    exact .inr ⟨fault, unsaved, write, rfl⟩
  case refused =>
    intro text program readable parsed saves same
    exact ⟨refused program (find_eq_ok_iff.mpr ⟨text, readable, parsed⟩) saves same,
      rfl⟩

theorem Outcome.spares (outcome : Outcome config path files result after) :
    Spares config path files result after := by
  cases outcome with
  | @failed error missing =>
      apply Spares.of_unchanged
      · intro file returned
        cases returned
      · intro program found
        rw [missing] at found
        cases found
  | kept found noSave =>
      apply Spares.of_unchanged
      · intro file returned saves
        exact absurd saves noSave
      · intro program found saves
        exact absurd saves noSave
  | @written program _ found saves save =>
      obtain ⟨other, source, write⟩ := image_of_saved_eq_ok found saves save
      constructor
      case others =>
        intro location apart
        exact FileTree.find?_of_write write apart
      case source => exact source
      case failed =>
        intro error returned
        cases returned
      case changed => exact fun _ => ⟨saves, other⟩
      case image =>
        intro file returned _ _
        cases returned
        exact .inl ⟨rfl, write, FileTree.read_of_write write⟩
      case refused => exact fun _ _ _ _ _ same => absurd same other
  | @unwritten program fault found saves save =>
      obtain ⟨write, guarded⟩ := image_of_saved_eq_error found saves save
      apply Spares.of_unchanged
      · intro file returned _ other
        cases returned
        exact ⟨fault, rfl, write other⟩
      · intro known found' _ same
        rw [found] at found'
        cases found'
        rw [guarded same]

/-- Reading a program file changes no file but the image. -/
theorem reading_spares_other_files (config : Config) (path : Path)
    (world : World) :
    Spares config path world.files
      ((read config path : StateM World _) world).1
      ((read config path : StateM World _) world).2.files :=
  (read_outcome config path world).spares

/-- The file `..hex` is saved to the directory `..`, which is not the source. -/
theorem dot_image_fails_as_directory :
    let config : Config :=
      { Config.defaults with assemblyExtension := ['h', 'e', 'x'], persist := true }
    let source : Text := ['h', 'a', 'l', 't', '\n']
    let path : Path := ⟨dotImage⟩
    let world := World.new
      (FileTree.empty.add [dotImage] (.file source.encode)) none
    let result := ((read config path : StateM World _) world).1
    Saves config path ∧ path.extension? = some imageExtension ∧
      result = .ok ⟨⟨[0], some [1]⟩, some .isDirectory⟩ ∧
      result ≠ .ok ⟨⟨[0], some [1]⟩, some .sourceProtected⟩ := by
  intro config source path world result
  have saves : Saves config path := by decide
  have extension : path.extension? = some imageExtension := by decide
  have readable : world.files.read path = .ok source.encode := by rfl
  have found : find world.files config path = .ok ⟨[0], some [1]⟩ :=
    find_eq_ok_iff.mpr ⟨source, readable, rfl⟩
  have returned : result = .ok ⟨⟨[0], some [1]⟩, some .isDirectory⟩ := by
    simp only [result, read_world, found, complete_of_saves saves,
      saved_of_imageExtension readable extension]
    rfl
  refine ⟨saves, extension, returned, ?_⟩
  rw [returned]
  intro guarded
  cases guarded

end WordMachine.ProgramFile
