import WordMachine.Text.Encoding

namespace WordMachine

/-! A path is a row of bytes with slashes between its segments, in UTF-8 or not.
Empty segments and `.` name nothing, except for a `.` that starts a relative path.
The file name is the last segment that names something, unless that is `..`. -/

structure Path where
  bytes : Bytes
  deriving DecidableEq, Repr

namespace Path

def ofText (text : Text) : Path :=
  ⟨text.encode⟩

/-- The path for a reader: what is not UTF-8 is replaced. -/
def shown (path : Path) : String :=
  String.ofList path.bytes.lossy

def slash : UInt8 := 0x2F

def dot : UInt8 := 0x2E

def here : Bytes := [dot]

def up : Bytes := [dot, dot]

def isVoid (segment : Bytes) : Bool :=
  segment == [] || segment == here

def segments (path : Path) : List Bytes :=
  path.bytes.splitOn slash

def ofSegments (segments : List Bytes) : Path :=
  ⟨[slash].intercalate segments⟩

@[simp] theorem ofSegments_segments (path : Path) :
    ofSegments path.segments = path := by
  cases path
  simp [ofSegments, segments, List.intercalate_splitOn]

def isAbsolute (path : Path) : Bool :=
  path.bytes.head? == some slash

/-- What two spellings of a path have in common. -/
def components (path : Path) : List Bytes :=
  let anchor :=
    if path.isAbsolute then [[slash]]
    else if path.segments.head? == some here then [here]
    else []
  anchor ++ path.segments.filter fun segment => !isVoid segment

def same (first second : Path) : Bool :=
  first.components == second.components

/-- The parts of a file name before and after its last dot. A name that starts
with its only dot has no extension. -/
def splitName (name : Bytes) : Bytes × Option Bytes :=
  match name.reverse.dropWhile fun byte => byte != dot with
  | _ :: last :: stem =>
      ((last :: stem).reverse,
        some (name.reverse.takeWhile fun byte => byte != dot).reverse)
  | _ => (name, none)

/-- The segments up to and including the file name, last first. -/
def named (path : Path) : List Bytes :=
  path.segments.reverse.dropWhile isVoid

def fileName? (path : Path) : Option Bytes :=
  path.named.head?.filter fun name => name != up

def extension? (path : Path) : Option Bytes :=
  path.fileName?.bind fun name => (splitName name).2

/-- Replaces the extension and drops whatever follows the file name. A name that
would leave only `..` before its extension loses the extension instead. -/
def withExtension (path : Path) (extension : Bytes) : Path :=
  match path.named with
  | [] => path
  | name :: parents =>
      if name == up then path
      else
        let stem := (splitName name).1
        let isLast := path.segments.length == parents.length + 1
        let renamed :=
          if stem == here && isLast then up else stem ++ dot :: extension
        ofSegments (renamed :: parents).reverse

end Path

end WordMachine
