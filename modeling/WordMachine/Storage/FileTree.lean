import WordMachine.Storage.Fault
import WordMachine.Storage.Path

namespace WordMachine

/-! A tree of plain files and directories. A location is the list of names from
the root, which is a directory and its own parent. Absolute paths start at the root,
and all others at the working directory. -/

abbrev Location := List Bytes

inductive Entry where
  | file (contents : Bytes)
  | directory
  deriving DecidableEq, Repr

structure FileTree where
  entries : List (Location × Entry)
  working : Location
  deriving DecidableEq, Repr

namespace FileTree

/-- A tree with nothing but its root. -/
def empty : FileTree :=
  ⟨[], []⟩

def find? (tree : FileTree) : Location → Option Entry
  | [] => some .directory
  | location => tree.entries.lookup location

def put (tree : FileTree) (location : Location) (entry : Entry) : FileTree :=
  { tree with
    entries := (location, entry) :: tree.entries.filter fun known => known.1 != location }

/-- Adds an entry and the directories above it that are missing. -/
def add (tree : FileTree) (location : Location) (entry : Entry) : FileTree :=
  let above := (List.range location.length).map location.take
  let missing := above.filter fun parent => (tree.find? parent).isNone
  (missing.foldl (fun tree parent => tree.put parent .directory) tree).put location entry

/-- Names have at most 255 bytes and paths fewer than 4096. -/
def nameLimit : Nat := 255

def pathLimit : Nat := 4096

def checkName (name : Bytes) : Except Fault Unit :=
  if name.length ≤ nameLimit then .ok () else .error .nameTooLong

def checkPath (path : Path) : Except Fault Unit :=
  if path.bytes.contains 0 then .error .nulInName
  else if path.bytes.isEmpty then .error .notFound
  else if path.bytes.length < pathLimit then .ok ()
  else .error .nameTooLong

/-- The location of a name in a directory. -/
def child (tree : FileTree) (location : Location) (name : Bytes) :
    Except Fault Location :=
  match tree.find? location with
  | some .directory => do
      checkName name
      pure (location ++ [name])
  | some (.file _) => .error .notDirectory
  | none => .error .notFound

/-- Follows one segment of a path. -/
def follow (tree : FileTree) (location : Location) (segment : Bytes) :
    Except Fault Location := do
  let below ← tree.child location segment
  if Path.isVoid segment then pure location
  else if segment == Path.up then pure location.dropLast
  else if (tree.find? below).isSome then pure below
  else .error .notFound

def start (tree : FileTree) (path : Path) : Location :=
  if path.isAbsolute then [] else tree.working

def resolve (tree : FileTree) (path : Path) : Except Fault Location := do
  checkPath path
  path.segments.foldlM tree.follow (tree.start path)

def read (tree : FileTree) (path : Path) : Except Fault Bytes := do
  match tree.find? (← tree.resolve path) with
  | some (.file contents) => pure contents
  | some .directory => .error .isDirectory
  | none => .error .notFound

/-- The location a path names for writing: a file, or nothing yet, in an
existing directory. -/
def target (tree : FileTree) (path : Path) : Except Fault Location := do
  checkPath path
  let folder ← path.segments.dropLast.foldlM tree.follow (tree.start path)
  let name := path.segments.getLast?.getD []
  let location ← tree.child folder name
  if Path.isVoid name || name == Path.up then .error .isDirectory
  else if tree.find? location == some .directory then .error .isDirectory
  else pure location

def write (tree : FileTree) (path : Path) (contents : Bytes) :
    Except Fault FileTree := do
  let location ← tree.target path
  pure (tree.put location (.file contents))

@[simp] theorem find?_nil (tree : FileTree) : tree.find? [] = some .directory := rfl

theorem lookup_filter_ne {α β : Type} [BEq α] [LawfulBEq α]
    (entries : List (α × β)) {key other : α} (different : other ≠ key) :
    (entries.filter fun known => known.1 != key).lookup other =
      entries.lookup other := by
  induction entries with
  | nil => rfl
  | cons head rest induction =>
      obtain ⟨name, value⟩ := head
      by_cases same : name = key
      · subst same
        have unequal : (other == name) = false := by simpa using different
        simp [List.lookup_cons, unequal, induction]
      · simp [List.lookup_cons, same, induction]

theorem find?_put_self (tree : FileTree) {location : Location} (entry : Entry)
    (below : location ≠ []) :
    (tree.put location entry).find? location = some entry := by
  cases location with
  | nil => exact absurd rfl below
  | cons name rest => simp [find?, put]

theorem find?_put_of_ne (tree : FileTree) {location other : Location}
    (entry : Entry) (different : other ≠ location) :
    (tree.put location entry).find? other = tree.find? other := by
  cases other with
  | nil => rfl
  | cons name rest =>
      have unequal : (name :: rest == location) = false := by
        simpa using different
      simp only [find?, put, List.lookup_cons, unequal]
      exact lookup_filter_ne tree.entries different

end FileTree

end WordMachine
