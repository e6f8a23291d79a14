import WordMachine.Text.Basic

namespace WordMachine

/-! A line ends at a newline, or at a carriage return directly before one. A
last piece without a newline is a line too, unless it is empty, and keeps its
carriage return. The rule is the same for characters and for bytes. -/

variable {α : Type} [BEq α]

def dropReturn (carriage : α) (piece : List α) : List α :=
  if piece.getLast? == some carriage then piece.dropLast else piece

@[simp] theorem dropReturn_nil (carriage : α) :
    dropReturn carriage ([] : List α) = [] := rfl

def splitLines (newline carriage : α) (text : List α) : List (List α) :=
  let pieces := text.splitOn newline
  pieces.dropLast.map (dropReturn carriage) ++
    pieces.getLast?.toList.filter fun last => !last.isEmpty

namespace Text

def lines (text : Text) : List Text :=
  splitLines '\n' '\r' text

/-- Lines with their numbers, counted from one. -/
def numberedLines (text : Text) : List (Text × Nat) :=
  (lines text).zipIdx 1

end Text

end WordMachine
