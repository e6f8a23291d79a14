import WordMachine.Proofs.Storage.Path
import WordMachine.Proofs.Traversal
import WordMachine.Storage.FileTree

namespace WordMachine.FileTree

/-! What a path leads to in a tree, and which of it a write changes. -/

variable {tree : FileTree} {folder next : Location} {segment : Bytes}

private theorem child_eq_ok_iff {location : Location} :
    tree.child folder segment = .ok location ↔
      tree.find? folder = some .directory ∧ checkName segment = .ok () ∧
        location = folder ++ [segment] := by
  unfold child
  cases tree.find? folder with
  | none => simp
  | some found =>
      cases found with
      | file contents => simp
      | directory =>
          simp only [check_bind_eq_ok_iff, true_and]
          simp [pure, Except.pure, eq_comm]

/-- One segment stays, goes up, or goes down to an entry that exists. -/
inductive Follows (tree : FileTree) (folder : Location) (segment : Bytes) :
    Location → Prop
  | stay (void : Path.isVoid segment = true) : Follows tree folder segment folder
  | up (void : Path.isVoid segment = false) (up : segment = Path.up) :
      Follows tree folder segment folder.dropLast
  | down (void : Path.isVoid segment = false) (up : segment ≠ Path.up)
      (present : (tree.find? (folder ++ [segment])).isSome = true) :
      Follows tree folder segment (folder ++ [segment])

theorem follow_eq_ok_iff :
    tree.follow folder segment = .ok next ↔
      tree.find? folder = some .directory ∧ checkName segment = .ok () ∧
        tree.Follows folder segment next := by
  rw [follow, bind_eq_ok_iff]
  constructor
  · intro followed
    obtain ⟨below, reached, went⟩ := followed
    obtain ⟨inside, named, rfl⟩ := child_eq_ok_iff.mp reached
    refine ⟨inside, named, ?_⟩
    split at went
    next void =>
        cases went
        exact .stay void
    next solid =>
        have void := Bool.eq_false_iff.mpr solid
        split at went
        next up =>
            cases went
            exact .up void (eq_of_beq up)
        next down =>
            split at went
            next present =>
                cases went
                exact .down void (fun up => down (beq_iff_eq.mpr up)) present
            next => cases went
  · intro followed
    obtain ⟨inside, named, follows⟩ := followed
    refine ⟨_, child_eq_ok_iff.mpr ⟨inside, named, rfl⟩, ?_⟩
    cases follows with
    | stay void => rw [if_pos void]; rfl
    | up void up =>
        rw [if_neg (Bool.eq_false_iff.mp void), if_pos (beq_iff_eq.mpr up)]
        rfl
    | down void noUp present =>
        rw [if_neg (Bool.eq_false_iff.mp void), if_neg (mt beq_iff_eq.mp noUp),
          if_pos present]
        rfl

variable {path : Path} {front : List Bytes} {name : Bytes} {location : Location}
  {contents : Bytes} {files : FileTree}

theorem resolve_of_segments (split : path.segments = front ++ [name]) :
    tree.resolve path = .ok location ↔
      checkPath path = .ok () ∧ ∃ folder,
        front.foldlM tree.follow (tree.start path) = .ok folder ∧
          tree.follow folder name = .ok location := by
  rw [resolve, check_bind_eq_ok_iff, split, List.foldlM_append, bind_eq_ok_iff]
  simp only [List.foldlM_cons, List.foldlM_nil, bind_pure]

theorem read_eq_ok_iff :
    tree.read path = .ok contents ↔
      ∃ location, tree.resolve path = .ok location ∧
        tree.find? location = some (.file contents) := by
  rw [read, bind_eq_ok_iff]
  refine exists_congr fun location => and_congr_right fun _ => ?_
  cases tree.find? location with
  | none => simp
  | some entry => cases entry <;> simp [pure, Except.pure]

theorem isVoid_of_read (split : path.segments = front ++ [name])
    (readable : tree.read path = .ok contents) : Path.isVoid name = false := by
  obtain ⟨location, resolved, present⟩ := read_eq_ok_iff.mp readable
  obtain ⟨-, folder, -, followed⟩ := (resolve_of_segments split).mp resolved
  obtain ⟨inside, -, follows⟩ := follow_eq_ok_iff.mp followed
  cases follows with
  | stay void =>
      rw [inside] at present
      cases present
  | up void up => exact void
  | down void noUp found => exact void

theorem read_of_segments (split : path.segments = front ++ [name])
    (solid : Path.isVoid name = false) (noUp : name ≠ Path.up) :
    tree.read path = .ok contents ↔
      checkPath path = .ok () ∧ ∃ folder,
        front.foldlM tree.follow (tree.start path) = .ok folder ∧
        tree.find? folder = some .directory ∧ checkName name = .ok () ∧
        tree.find? (folder ++ [name]) = some (.file contents) := by
  rw [read_eq_ok_iff]
  constructor
  · intro found
    obtain ⟨location, resolved, present⟩ := found
    obtain ⟨checked, folder, walked, followed⟩ :=
      (resolve_of_segments split).mp resolved
    obtain ⟨inside, named, follows⟩ := follow_eq_ok_iff.mp followed
    cases follows with
    | stay void =>
        rw [solid] at void
        cases void
    | up void up => exact absurd up noUp
    | down void noUp' found => exact ⟨checked, folder, walked, inside, named, present⟩
  · intro found
    obtain ⟨checked, folder, walked, inside, named, present⟩ := found
    refine ⟨folder ++ [name], ?_, present⟩
    refine (resolve_of_segments split).mpr ⟨checked, folder, walked, ?_⟩
    refine follow_eq_ok_iff.mpr ⟨inside, named, .down solid noUp ?_⟩
    rw [present]
    rfl

/-- A path is written at its last name, in the directory that the segments before
it lead to. -/
theorem target_eq_ok_iff (split : path.segments = front ++ [name]) :
    tree.target path = .ok location ↔
      checkPath path = .ok () ∧ ∃ folder,
        front.foldlM tree.follow (tree.start path) = .ok folder ∧
        tree.find? folder = some .directory ∧ checkName name = .ok () ∧
        location = folder ++ [name] ∧ Path.isVoid name = false ∧
        name ≠ Path.up ∧ tree.find? location ≠ some .directory := by
  rw [target, split, List.dropLast_concat, List.getLast?_concat,
    Option.getD_some, check_bind_eq_ok_iff]
  simp only [bind_eq_ok_iff, child_eq_ok_iff]
  constructor
  · intro aimed
    obtain ⟨checked, folder, walked, _, ⟨inside, named, rfl⟩, aimed⟩ := aimed
    split at aimed
    next => cases aimed
    next solid =>
        split at aimed
        next => cases aimed
        next free =>
            cases aimed
            simp only [Bool.or_eq_true, beq_iff_eq, not_or, Bool.not_eq_true]
              at solid free
            exact ⟨checked, folder, walked, inside, named, rfl, solid.1, solid.2, free⟩
  · intro aimed
    obtain ⟨checked, folder, walked, inside, named, rfl, void, up, free⟩ := aimed
    refine ⟨checked, folder, walked, _, ⟨inside, named, rfl⟩, ?_⟩
    simp [void, up, free, pure, Except.pure]

theorem target_up (split : path.segments = front ++ [Path.up])
    (checked : checkPath path = .ok ())
    (walked : front.foldlM tree.follow (tree.start path) = .ok folder)
    (inside : tree.find? folder = some .directory) :
    tree.target path = .error .isDirectory := by
  have reached : tree.child folder Path.up = .ok (folder ++ [Path.up]) :=
    child_eq_ok_iff.mpr ⟨inside, rfl, rfl⟩
  unfold target
  rw [split, List.dropLast_concat, List.getLast?_concat, Option.getD_some,
    checked, walked]
  simp only [bind, Except.bind, reached]
  rfl

private theorem checkPath_eq_ok_iff :
    checkPath path = .ok () ↔
      0 ∉ path.bytes ∧ path.bytes ≠ [] ∧ path.bytes.length < pathLimit := by
  rw [checkPath]
  by_cases clean : 0 ∈ path.bytes
  · simp [clean]
  · by_cases empty : path.bytes = []
    · simp [empty]
    · simp [clean, empty]

theorem checkPath_of_prefix {shorter : Path} (checked : checkPath path = .ok ())
    (start : shorter.bytes <+: path.bytes) (present : shorter.bytes ≠ []) :
    checkPath shorter = .ok () := by
  obtain ⟨clean, -, fits⟩ := checkPath_eq_ok_iff.mp checked
  exact checkPath_eq_ok_iff.mpr
    ⟨mt start.mem clean, present, Nat.lt_of_le_of_lt start.length_le fits⟩

theorem write_eq_ok_iff :
    tree.write path contents = .ok files ↔
      ∃ location, tree.target path = .ok location ∧
        files = tree.put location (.file contents) := by
  rw [write, bind_eq_ok_iff]
  simp only [pure, Except.pure, Except.ok.injEq, eq_comm]

/-- A tree that has all that another has, with other contents in its files. -/
private structure Extends (tree larger : FileTree) : Prop where
  directory : ∀ location, tree.find? location = some .directory →
    larger.find? location = some .directory
  present : ∀ location, (tree.find? location).isSome = true →
    (larger.find? location).isSome = true

private theorem Extends.follow {larger : FileTree} (larger' : tree.Extends larger)
    (followed : tree.follow folder segment = .ok next) :
    larger.follow folder segment = .ok next := by
  obtain ⟨inside, named, follows⟩ := follow_eq_ok_iff.mp followed
  refine follow_eq_ok_iff.mpr ⟨larger'.directory _ inside, named, ?_⟩
  cases follows with
  | stay void => exact .stay void
  | up void up => exact .up void up
  | down void noUp present => exact .down void noUp (larger'.present _ present)

private theorem Extends.foldlM_follow {larger : FileTree}
    (larger' : tree.Extends larger)
    {segments : List Bytes}
    (followed : segments.foldlM tree.follow folder = .ok next) :
    segments.foldlM larger.follow folder = .ok next := by
  induction segments generalizing folder with
  | nil => exact followed
  | cons segment rest induction =>
      rw [List.foldlM_cons, bind_eq_ok_iff] at followed ⊢
      obtain ⟨middle, first, others⟩ := followed
      exact ⟨middle, larger'.follow first, induction others⟩

private theorem extends_put (free : tree.find? location ≠ some .directory) :
    tree.Extends (tree.put location (.file contents)) := by
  have deep : location ≠ [] := by
    rintro rfl
    exact free rfl
  constructor
  · intro other inside
    have different : other ≠ location := by
      rintro rfl
      exact free inside
    rw [find?_put_of_ne tree _ different]
    exact inside
  · intro other present
    by_cases same : other = location
    · rw [same, find?_put_self tree _ deep]
      rfl
    · rw [find?_put_of_ne tree _ same]
      exact present

theorem read_of_write (written : tree.write path contents = .ok files) :
    files.read path = .ok contents := by
  obtain ⟨location, aimed, rfl⟩ := write_eq_ok_iff.mp written
  obtain ⟨front, name, split⟩ := path.exists_segments_eq_concat
  obtain ⟨checked, folder, walked, inside, named, rfl, solid, noUp, free⟩ :=
    (target_eq_ok_iff split).mp aimed
  have larger := @extends_put _ _ contents free
  refine (read_of_segments split solid noUp).mpr
    ⟨checked, folder, larger.foldlM_follow walked, larger.directory _ inside, named, ?_⟩
  exact find?_put_self tree _ (List.append_ne_nil_of_right_ne_nil folder
    (List.cons_ne_nil name []))

theorem find?_of_write (written : tree.write path contents = .ok files)
    (apart : tree.target path ≠ .ok location) :
    files.find? location = tree.find? location := by
  obtain ⟨changed, aimed, rfl⟩ := write_eq_ok_iff.mp written
  refine find?_put_of_ne tree _ ?_
  rintro rfl
  exact apart aimed

theorem start_of_segments {sibling : Path} {renamed : Bytes}
    (split : path.segments = front ++ [name])
    (split' : sibling.segments = front ++ [renamed]) :
    tree.start sibling = tree.start path := by
  rw [start, start, Path.isAbsolute_of_segments split,
    Path.isAbsolute_of_segments split']

theorem read_of_write_of_ne {sibling : Path} {renamed : Bytes} {old : Bytes}
    (split : path.segments = front ++ [name])
    (split' : sibling.segments = front ++ [renamed])
    (solid : Path.isVoid name = false) (noUp : name ≠ Path.up)
    (different : renamed ≠ name) (readable : tree.read path = .ok old)
    (written : tree.write sibling contents = .ok files) :
    files.read path = .ok old := by
  obtain ⟨location, aimed, rfl⟩ := write_eq_ok_iff.mp written
  obtain ⟨-, folder, walked, -, -, rfl, -, -, free⟩ :=
    (target_eq_ok_iff split').mp aimed
  obtain ⟨checked, folder', walked', inside, named, present⟩ :=
    (read_of_segments split solid noUp).mp readable
  rw [start_of_segments split split', walked'] at walked
  cases walked
  have larger := @extends_put _ _ contents free
  refine (read_of_segments split solid noUp).mpr
    ⟨checked, folder, larger.foldlM_follow walked', larger.directory _ inside, named, ?_⟩
  rw [find?_put_of_ne tree _, present]
  intro same
  exact different (List.cons.inj (List.append_cancel_left same)).1.symm

end WordMachine.FileTree
