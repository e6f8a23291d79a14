import WordMachine.Event
import WordMachine.Text.Encoding

namespace WordMachine

/-! What a machine needs from its surroundings. Printing to the console may
fail; complaints and the journal do not. -/

class Host (m : Type → Type) where
  readFile : Path → m (Except Fault Bytes)
  writeFile : Path → Bytes → m (Except Fault Unit)
  print : String → m (Except Fault Unit)
  complain : String → m Unit
  note : Event → m Unit

namespace Host

variable {m : Type → Type} [Monad m] [Host m]

def noteAll : List Event → m Unit
  | [] => pure ()
  | event :: rest => do
      note event
      noteAll rest

end Host

end WordMachine
