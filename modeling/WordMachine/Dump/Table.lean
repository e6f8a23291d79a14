import WordMachine.Text.Basic

namespace WordMachine

/-! Tables of two columns, and a printer of them in plain text. It makes every
column as wide as its widest line, puts a space on both sides of every cell, and
gives a row the height of its higher cell. -/

inductive Alignment where
  | left
  | right
  deriving DecidableEq, Repr

structure Cell where
  alignment : Alignment
  lines : List Text
  deriving DecidableEq, Repr

structure Row where
  left : Cell
  right : Cell
  deriving DecidableEq, Repr

structure Table where
  title : Row
  rows : List Row
  deriving DecidableEq, Repr

/-- What gives the lines of a table. -/
abbrev Printer :=
  Table → List Text

namespace Printer

variable (printer : Printer)

def text (table : Table) : Text :=
  (printer table).flatMap fun line => line ++ ['\n']

/-- A table as the contents of a cell of another table. -/
def cell (table : Table) : Cell :=
  ⟨.left, printer table⟩

end Printer

namespace Cell

def ofText (alignment : Alignment) (text : Text) : Cell :=
  ⟨alignment, [text]⟩

def width (cell : Cell) : Nat :=
  cell.lines.foldl (fun widest line => max widest line.length) 0

def padLine (alignment : Alignment) (width : Nat) (line : Text) : Text :=
  let fill := List.replicate (width - line.length) ' '
  match alignment with
  | .left => line ++ fill
  | .right => fill ++ line

/-- The lines of a cell in a row of the given height. -/
def filled (cell : Cell) (height : Nat) : List Text :=
  cell.lines ++ List.replicate (height - cell.lines.length) []

def block (cell : Cell) (width height : Nat) : List Text :=
  (cell.filled height).map fun line =>
    ' ' :: padLine cell.alignment width line ++ [' ']

end Cell

namespace Row

def height (row : Row) : Nat :=
  max row.left.lines.length row.right.lines.length

def lines (row : Row) (leftWidth rightWidth : Nat) : List Text :=
  List.zipWith (fun left right => ' ' :: left ++ '│' :: right ++ [' '])
    (row.left.block leftWidth row.height) (row.right.block rightWidth row.height)

end Row

namespace Table

def allRows (table : Table) : List Row :=
  table.title :: table.rows

def leftWidth (table : Table) : Nat :=
  table.allRows.foldl (fun widest row => max widest row.left.width) 0

def rightWidth (table : Table) : Nat :=
  table.allRows.foldl (fun widest row => max widest row.right.width) 0

def rule (junction : Char) (leftWidth rightWidth : Nat) : Text :=
  ' ' :: List.replicate (leftWidth + 2) '─' ++
    junction :: List.replicate (rightWidth + 2) '─' ++ [' ']

def lines : Printer := fun table =>
  let left := table.leftWidth
  let right := table.rightWidth
  table.title.lines left right ++
    rule '┼' left right ::
      table.rows.flatMap (fun row => row.lines left right) ++
        [rule '┴' left right]

def text (table : Table) : Text :=
  Printer.text lines table

end Table

end WordMachine
