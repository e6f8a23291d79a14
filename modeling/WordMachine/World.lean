import WordMachine.Host
import WordMachine.Storage.FileTree

namespace WordMachine

/-! A host held in memory: a file tree, a console that may have room for only so
many bytes, and a journal. A print that does not fit fills the room that is left
and fails. -/

structure World where
  files : FileTree
  output : Array UInt8
  room : Option Nat
  complaints : String
  journal : Array Event

namespace World

def new (files : FileTree) (room : Option Nat) : World :=
  ⟨files, #[], room, "", #[]⟩

def readFile (world : World) (path : Path) : Except Fault Bytes :=
  world.files.read path

def writeFile (world : World) (path : Path) (contents : Bytes) :
    Except Fault Unit × World :=
  match world.files.write path contents with
  | .ok files => (.ok (), { world with files := files })
  | .error fault => (.error fault, world)

def print (world : World) (text : String) : Except Fault Unit × World :=
  let bytes := Text.encode text.toList
  match world.room with
  | none => (.ok (), { world with output := world.output ++ bytes })
  | some room =>
      if bytes.length ≤ room then
        (.ok (), { world with
          output := world.output ++ bytes
          room := some (room - bytes.length) })
      else
        (.error .outputLimit, { world with
          output := world.output ++ bytes.take room
          room := some 0 })

def complain (world : World) (text : String) : World :=
  { world with complaints := world.complaints ++ text }

def note (world : World) (event : Event) : World :=
  { world with journal := world.journal.push event }

end World

instance : Host (StateM World) where
  readFile path := fun world => (world.readFile path, world)
  writeFile path contents := fun world => world.writeFile path contents
  print text := fun world => world.print text
  complain text := fun world => ((), world.complain text)
  note event := fun world => ((), world.note event)

namespace World

theorem print_unbounded {world : World} (text : String) (free : world.room = none) :
    world.print text =
      (.ok (), { world with output := world.output ++ Text.encode text.toList }) := by
  simp [print, free]

end World

end WordMachine
