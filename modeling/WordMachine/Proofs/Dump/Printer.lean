import Mathlib.Data.List.Basic
import Mathlib.Data.List.Forall2
import WordMachine.Dump.Table

namespace WordMachine

/-! What is known of a printer of tables, and the printer in plain text as an instance
of it. Rows are printed in their order, and each line of a cell is filled up with
spaces to the width of its column. -/

def isSpace (c : Char) : Bool :=
  c == ' '

def Spaced (core text : Text) : Prop :=
  ∃ front back, text = front ++ core ++ back ∧
    (∀ c ∈ front, isSpace c = true) ∧ ∀ c ∈ back, isSpace c = true

def Unbroken (text : Text) : Prop :=
  ∀ c ∈ text, c ≠ '\n' ∧ c ≠ '\r'

/-- The bar between two columns stands in the lines of rows only. -/
def barred (line : Text) : Bool :=
  line.contains '│'

structure Fills (width : Nat) (line text : Text) : Prop where
  spaced : Spaced line text
  width : text.length = width

namespace Row

def Unbroken (row : Row) : Prop :=
  (∀ line ∈ row.left.lines, WordMachine.Unbroken line) ∧
    ∀ line ∈ row.right.lines, WordMachine.Unbroken line

/-- The lines of a row in two columns: one for each line of its higher cell. -/
def Prints (row : Row) (leftWidth rightWidth : Nat) (lines : List Text) : Prop :=
  ∃ lefts rights, lines = List.zipWith (fun left right => left ++ '│' :: right)
      lefts rights ∧
    List.Forall₂ (Fills leftWidth) (row.left.filled row.height) lefts ∧
      List.Forall₂ (Fills rightWidth) (row.right.filled row.height) rights

end Row

/-- What is documented of a printer. Lines without a bar may stand between the rows and
around them. -/
structure Printer.Documented (printer : Printer) : Prop where
  rows (table : Table) : ∃ leftWidth rightWidth blocks,
    List.Forall₂ (fun row block => row.Prints leftWidth rightWidth block)
        table.allRows blocks ∧
      (printer table).filter barred = blocks.flatten
  unbroken {table : Table} (unbroken : ∀ row ∈ table.allRows, row.Unbroken) :
    ∀ line ∈ printer table, Unbroken line

theorem Spaced.mem {line text : Text} {c : Char} (spaced : Spaced line text)
    (member : c ∈ text) : c = ' ' ∨ c ∈ line := by
  obtain ⟨front, back, rfl, before, behind⟩ := spaced
  rcases List.mem_append.mp member with outer | last
  · rcases List.mem_append.mp outer with first | inner
    · exact .inl (eq_of_beq (before c first))
    · exact .inr inner
  · exact .inl (eq_of_beq (behind c last))

theorem barred_iff {line : Text} : barred line = true ↔ '│' ∈ line :=
  List.contains_iff_mem

theorem Spaced.barred_eq {line text : Text} (spaced : Spaced line text) :
    barred text = barred line := by
  rw [Bool.eq_iff_iff, barred_iff, barred_iff]
  constructor
  · intro member
    exact (spaced.mem member).resolve_left (by decide)
  · intro member
    obtain ⟨front, back, rfl, _⟩ := spaced
    exact List.mem_append_left back (List.mem_append_right front member)

private theorem Spaced.unbroken {line text : Text} (spaced : Spaced line text)
    (unbroken : Unbroken line) : Unbroken text := by
  intro c member
  rcases spaced.mem member with rfl | inner
  · decide
  · exact unbroken c inner

private theorem le_foldl_max {α : Type} (size : α → Nat) (items : List α)
    (start : Nat) :
    start ≤ items.foldl (fun widest item => max widest (size item)) start ∧
      ∀ item ∈ items,
        size item ≤ items.foldl (fun widest item => max widest (size item)) start := by
  induction items generalizing start with
  | nil => exact ⟨Nat.le_refl start, List.forall_mem_nil _⟩
  | cons first rest induction =>
      obtain ⟨above, others⟩ := induction (max start (size first))
      obtain ⟨start_le, first_le⟩ := Nat.max_le.mp above
      exact ⟨start_le, List.forall_mem_cons.mpr ⟨first_le, others⟩⟩

namespace Cell

variable {cell : Cell} {alignment : Alignment} {width height : Nat} {line : Text}

theorem length_filled (fits : cell.lines.length ≤ height) :
    (cell.filled height).length = height := by
  rw [filled, List.length_append, List.length_replicate]
  omega

private theorem length_of_mem_filled (fits : cell.width ≤ width)
    (member : line ∈ cell.filled height) : line.length ≤ width := by
  rcases List.mem_append.mp member with own | filler
  · exact Nat.le_trans ((le_foldl_max List.length cell.lines 0).2 line own) fits
  · rw [List.eq_of_mem_replicate filler]
    exact Nat.zero_le width

private theorem length_padLine (fits : line.length ≤ width) :
    (padLine alignment width line).length = width := by
  cases alignment with
  | left =>
      rw [padLine, List.length_append, List.length_replicate]
      omega
  | right =>
      rw [padLine, List.length_append, List.length_replicate]
      omega

private theorem spaced_padLine (alignment : Alignment) (width : Nat) (line : Text) :
    Spaced line (padLine alignment width line) := by
  have spaces : ∀ c ∈ List.replicate (width - line.length) ' ', isSpace c = true := by
    intro c member
    rw [List.eq_of_mem_replicate member]
    rfl
  cases alignment with
  | left => exact ⟨[], _, rfl, List.forall_mem_nil _, spaces⟩
  | right => exact ⟨_, [], (List.append_nil _).symm, spaces, List.forall_mem_nil _⟩

private theorem fills_padLine (alignment : Alignment) {front back : Nat}
    (fits : line.length ≤ width) :
    Fills (width + front + back) line (List.replicate front ' ' ++
      padLine alignment width line ++ List.replicate back ' ') := by
  obtain ⟨first, last, padded, before, behind⟩ := spaced_padLine alignment width line
  have spaces (count : Nat) : ∀ c ∈ List.replicate count ' ', isSpace c = true := by
    intro c member
    rw [List.eq_of_mem_replicate member]
    rfl
  constructor
  · refine ⟨List.replicate front ' ' ++ first, last ++ List.replicate back ' ', ?_,
      List.forall_mem_append.mpr ⟨spaces front, before⟩,
      List.forall_mem_append.mpr ⟨behind, spaces back⟩⟩
    simp [padded]
  · simp only [List.length_append, List.length_replicate, length_padLine fits]
    omega

theorem fills_filled {wrapped : Text → Text} {front back : Nat} (height : Nat)
    (fits : cell.width ≤ width)
    (wraps : ∀ line, wrapped line = List.replicate front ' ' ++
      padLine cell.alignment width line ++ List.replicate back ' ') :
    List.Forall₂ (Fills (width + front + back)) (cell.filled height)
      ((cell.filled height).map wrapped) := by
  rw [List.forall₂_map_right_iff, List.forall₂_same]
  intro line member
  rw [wraps]
  exact fills_padLine cell.alignment (length_of_mem_filled fits member)

end Cell

namespace Row

variable {row : Row} {leftWidth rightWidth : Nat} {lines : List Text}

private theorem prints_lines (leftFits : row.left.width ≤ leftWidth)
    (rightFits : row.right.width ≤ rightWidth) :
    row.Prints (leftWidth + 2 + 1) (rightWidth + 1 + 2)
      (row.lines leftWidth rightWidth) := by
  let wrapLeft (line : Text) : Text :=
    ' ' :: (' ' :: Cell.padLine row.left.alignment leftWidth line ++ [' '])
  let wrapRight (line : Text) : Text :=
    (' ' :: Cell.padLine row.right.alignment rightWidth line ++ [' ']) ++ [' ']
  refine ⟨(row.left.filled row.height).map wrapLeft,
    (row.right.filled row.height).map wrapRight, ?_, ?_, ?_⟩
  · rw [Row.lines, Cell.block, Cell.block, List.zipWith_map, List.zipWith_map]
    apply congrArg (fun join => List.zipWith join _ _)
    funext left right
    simp [wrapLeft, wrapRight]
  · apply Cell.fills_filled row.height leftFits
    intro line
    rfl
  · apply Cell.fills_filled row.height rightFits
    intro line
    simp [wrapRight, List.replicate]

theorem Prints.barred (prints : row.Prints leftWidth rightWidth lines) :
    ∀ line ∈ lines, WordMachine.barred line = true := by
  obtain ⟨lefts, rights, rfl, _⟩ := prints
  intro line member
  rw [← List.map_uncurry_zip_eq_zipWith] at member
  obtain ⟨⟨left, right⟩, _, rfl⟩ := List.mem_map.mp member
  exact barred_iff.mpr (List.mem_append_right left List.mem_cons_self)

private theorem exists_of_mem_right {α β : Type} {related : α → β → Prop}
    {firsts : List α} {seconds : List β} {second : β}
    (each : List.Forall₂ related firsts seconds) (member : second ∈ seconds) :
    ∃ first ∈ firsts, related first second := by
  induction each with
  | nil => cases member
  | cons same _ induction =>
      rcases List.mem_cons.mp member with rfl | later
      · exact ⟨_, List.mem_cons_self, same⟩
      · obtain ⟨first, listed, found⟩ := induction later
        exact ⟨first, List.mem_cons_of_mem _ listed, found⟩

private theorem unbroken_filled {cell : Cell} {width height : Nat} {texts : List Text}
    (unbroken : ∀ line ∈ cell.lines, WordMachine.Unbroken line)
    (fills : List.Forall₂ (Fills width) (cell.filled height) texts) :
    ∀ text ∈ texts, WordMachine.Unbroken text := by
  intro text member
  obtain ⟨line, inside, filled⟩ := exists_of_mem_right fills member
  apply filled.spaced.unbroken
  rcases List.mem_append.mp inside with own | filler
  · exact unbroken line own
  · rw [List.eq_of_mem_replicate filler]
    exact List.forall_mem_nil _

theorem Prints.unbroken (prints : row.Prints leftWidth rightWidth lines)
    (unbroken : row.Unbroken) : ∀ line ∈ lines, WordMachine.Unbroken line := by
  obtain ⟨lefts, rights, rfl, fillsLeft, fillsRight⟩ := prints
  intro line member
  rw [← List.map_uncurry_zip_eq_zipWith] at member
  obtain ⟨⟨left, right⟩, inside, rfl⟩ := List.mem_map.mp member
  obtain ⟨inLefts, inRights⟩ := List.of_mem_zip inside
  refine List.forall_mem_append.mpr ⟨unbroken_filled unbroken.1 fillsLeft left inLefts,
    List.forall_mem_cons.mpr ⟨by decide, ?_⟩⟩
  exact unbroken_filled unbroken.2 fillsRight right inRights

end Row

namespace Table

variable {table : Table} {row : Row} {leftWidth rightWidth : Nat}

private theorem mem_rule {junction c : Char}
    (member : c ∈ rule junction leftWidth rightWidth) : c ∈ [' ', '─', junction] := by
  simp only [rule, List.mem_append, List.mem_cons, List.mem_replicate,
    List.not_mem_nil, or_false] at member ⊢
  rcases member with ((space | ⟨_, dash⟩) | corner | ⟨_, dash⟩) | space
  · exact .inl space
  · exact .inr (.inl dash)
  · exact .inr (.inr corner)
  · exact .inr (.inl dash)
  · exact .inl space

private theorem rule_clean {junction : Char}
    (clean : junction ≠ '│' ∧ junction ≠ '\n' ∧ junction ≠ '\r') :
    barred (rule junction leftWidth rightWidth) = false ∧
      Unbroken (rule junction leftWidth rightWidth) := by
  have apart : ∀ c ∈ rule junction leftWidth rightWidth,
      c ≠ '│' ∧ c ≠ '\n' ∧ c ≠ '\r' := by
    intro c member
    have listed := mem_rule member
    simp only [List.mem_cons, List.not_mem_nil, or_false] at listed
    rcases listed with rfl | rfl | rfl
    · decide
    · decide
    · exact clean
  refine ⟨Bool.eq_false_iff.mpr fun bar => ?_, fun c member => (apart c member).2⟩
  exact (apart _ (barred_iff.mp bar)).1 rfl

private theorem prints_allRows (member : row ∈ table.allRows) :
    row.Prints (table.leftWidth + 2 + 1) (table.rightWidth + 1 + 2)
      (row.lines table.leftWidth table.rightWidth) :=
  Row.prints_lines ((le_foldl_max (fun row => row.left.width) table.allRows 0).2 row member)
    ((le_foldl_max (fun row => row.right.width) table.allRows 0).2 row member)

private theorem filter_lines (table : Table) :
    (lines table).filter barred =
      table.allRows.flatMap fun row => row.lines table.leftWidth table.rightWidth := by
  have upper := (@rule_clean table.leftWidth table.rightWidth '┼' (by decide)).1
  have lower := (@rule_clean table.leftWidth table.rightWidth '┴' (by decide)).1
  have rows : ∀ line ∈ table.allRows.flatMap fun row =>
      row.lines table.leftWidth table.rightWidth, barred line = true := by
    intro line member
    obtain ⟨row, listed, inside⟩ := List.mem_flatMap.mp member
    exact (prints_allRows listed).barred line inside
  rw [← List.filter_eq_self.mpr rows]
  simp [lines, allRows, upper, lower]

theorem documented_lines : Printer.Documented lines where
  rows table := by
    refine ⟨table.leftWidth + 2 + 1, table.rightWidth + 1 + 2,
      table.allRows.map fun row => row.lines table.leftWidth table.rightWidth, ?_, ?_⟩
    · rw [List.forall₂_map_right_iff, List.forall₂_same]
      intro row member
      exact prints_allRows member
    · rw [filter_lines, List.flatMap_def]
  unbroken {table} unbroken := by
    intro line member
    rcases List.mem_append.mp member with above | last
    · rcases List.mem_append.mp above with heading | below
      · exact (prints_allRows List.mem_cons_self).unbroken
          (unbroken _ List.mem_cons_self) line heading
      · rcases List.mem_cons.mp below with rfl | inner
        · exact (rule_clean (by decide)).2
        · obtain ⟨row, listed, inside⟩ := List.mem_flatMap.mp inner
          have listed' := List.mem_cons_of_mem table.title listed
          exact (prints_allRows listed').unbroken (unbroken row listed') line inside
    · rw [List.mem_singleton.mp last]
      exact (rule_clean (by decide)).2

end Table

end WordMachine
