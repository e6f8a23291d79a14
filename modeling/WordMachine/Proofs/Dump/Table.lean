import WordMachine.Dump.Words
import WordMachine.Proofs.Dump.Printer
import WordMachine.Proofs.Text.Lines
import WordMachine.Proofs.Text.Trim

namespace WordMachine

/-! Tables are read back from their texts. A row of two plain texts is a line with
one bar, and the texts are what stands before and behind the bar without the
spaces around it. -/

open Text (Snug Trimmed)

/-- A line that shows two texts, one on each side of its bar. -/
def Shows (line name contents : Text) : Prop :=
  ∃ left right, line = left ++ '│' :: right ∧
    ('│' ∉ left ∧ Trimmed isSpace left name) ∧
      ('│' ∉ right ∧ Trimmed isSpace right contents)

/-- Lines that show rows in their order, with other lines between them. -/
def Presents (lines : List Text) (rows : List (Text × Text)) : Prop :=
  List.Forall₂ (fun line row => Shows line row.1 row.2) (lines.filter barred) rows

section Reading

variable {line text name name' contents contents' : Text}

private theorem Spaced.bar_not_mem (spaced : Spaced line text) (bare : '│' ∉ line) :
    '│' ∉ text := by
  intro member
  exact bare ((spaced.mem member).resolve_left (by decide))

private theorem trimmed_of_spaced {core : Text} (trimmed : Trimmed isSpace line core)
    (spaced : Spaced line text) : Trimmed isSpace text core := by
  obtain ⟨front, back, rfl, before, behind⟩ := spaced
  exact trimmed.pad before behind

theorem Shows.mem {c : Char} (shown : Shows line name contents) (member : c ∈ line) :
    c ∈ [' ', '│'] ∨ c ∈ name ∨ c ∈ contents := by
  obtain ⟨left, right, rfl, ⟨_, trimmed⟩, _, trimmed'⟩ := shown
  rcases List.mem_append.mp member with first | rest
  · rcases Spaced.mem trimmed.parts first with rfl | inner
    · exact .inl List.mem_cons_self
    · exact .inr (.inl inner)
  · rcases List.mem_cons.mp rest with rfl | second
    · exact .inl (by decide)
    · rcases Spaced.mem trimmed'.parts second with rfl | inner
      · exact .inl List.mem_cons_self
      · exact .inr (.inr inner)

theorem Shows.name_infix (shown : Shows line name contents) : name <:+: line := by
  obtain ⟨left, right, rfl, ⟨_, trimmed⟩, _⟩ := shown
  obtain ⟨front, back, rfl, _⟩ := trimmed.parts
  exact (List.infix_append front name back).trans (List.prefix_append _ _).isInfix

private theorem Shows.unique (shown : Shows line name contents)
    (shown' : Shows line name' contents') : name = name' ∧ contents = contents' := by
  obtain ⟨left, right, rfl, ⟨bare, trimmed⟩, bare', trimmed'⟩ := shown
  obtain ⟨left', right', same, ⟨_, other⟩, _, other'⟩ := shown'
  obtain ⟨rfl, _, rfl⟩ := (List.append_cons_inj_of_notMem bare bare').mp same
  exact ⟨trimmed.trim_eq.symm.trans other.trim_eq,
    trimmed'.trim_eq.symm.trans other'.trim_eq⟩

private theorem Shows.spaced (shown : Shows line name contents)
    (spaced : Spaced line text) : Shows text name contents := by
  obtain ⟨front, back, rfl, before, behind⟩ := spaced
  obtain ⟨left, right, rfl, ⟨bare, trimmed⟩, bare', trimmed'⟩ := shown
  have opened : Spaced left (front ++ left ++ []) :=
    ⟨front, [], rfl, before, List.forall_mem_nil _⟩
  have closed : Spaced right (right ++ back) :=
    ⟨[], back, rfl, List.forall_mem_nil _, behind⟩
  refine ⟨front ++ left ++ [], right ++ back, by simp, ⟨?_, ?_⟩, ?_, ?_⟩
  · exact opened.bar_not_mem bare
  · exact trimmed_of_spaced trimmed opened
  · exact closed.bar_not_mem bare'
  · exact trimmed_of_spaced trimmed' closed

variable {lines texts : List Text} {rows rows' : List (Text × Text)}

private theorem Presents.unique (presents : Presents lines rows)
    (presents' : Presents lines rows') : rows = rows' := by
  unfold Presents at presents presents'
  generalize lines.filter barred = shown at presents presents'
  induction presents generalizing rows' with
  | nil =>
      cases presents'
      rfl
  | cons first _ induction =>
      cases presents' with
      | cons first' others =>
          obtain ⟨sameName, sameContents⟩ := first.unique first'
          rw [induction others, Prod.ext sameName sameContents]

private theorem Presents.spaced (presents : Presents lines rows)
    (spaced : List.Forall₂ Spaced lines texts) : Presents texts rows := by
  induction spaced generalizing rows with
  | nil => exact presents
  | @cons line text lines texts first others induction =>
      unfold Presents at presents induction ⊢
      rw [List.filter_cons] at presents ⊢
      rw [first.barred_eq]
      cases bar : barred line with
      | false =>
          rw [bar] at presents
          exact induction presents
      | true =>
          rw [bar, if_pos rfl] at presents
          cases presents with
          | cons shown rest =>
              exact .cons (shown.spaced first) (induction rest)

private theorem Presents.filled {cell : Cell} (presents : Presents cell.lines rows)
    (height : Nat) : Presents (cell.filled height) rows := by
  have blank : (List.replicate (height - cell.lines.length) ([] : Text)).filter barred =
      [] := by
    apply List.filter_eq_nil_iff.mpr
    intro line member
    rw [List.eq_of_mem_replicate member]
    decide
  rw [Presents, Cell.filled, List.filter_append, blank, List.append_nil]
  exact presents

end Reading

/-- A text that fills one line of a cell and can be told from what surrounds it
there. -/
structure PlainText (text : Text) : Prop extends Snug isSpace text where
  inside : ∀ c ∈ text, c ≠ '│' ∧ c ≠ '\n' ∧ c ≠ '\r'

def isSolid (c : Char) : Bool :=
  !(List.contains [' ', '│', '\n', '\r'] c)

theorem plainText_of_solid {text : Text} (solid : text.all isSolid = true) :
    PlainText text := by
  have apart : ∀ c ∈ text, c ≠ ' ' ∧ c ≠ '│' ∧ c ≠ '\n' ∧ c ≠ '\r' := by
    intro c member
    simpa [isSolid] using List.all_eq_true.mp solid c member
  refine ⟨⟨?_, ?_⟩, fun c member => (apart c member).2⟩
  · intro c first
    exact beq_eq_false_iff_ne.mpr (apart c (List.mem_of_head? first)).1
  · intro c last
    exact beq_eq_false_iff_ne.mpr (apart c (List.mem_of_getLast? last)).1

private theorem PlainText.spaced {core text : Text} (plain : PlainText core)
    (spaced : Spaced core text) : '│' ∉ text ∧ Trimmed isSpace text core := by
  refine ⟨spaced.bar_not_mem ?_, plain.toSnug, spaced⟩
  intro member
  exact (plain.inside _ member).1 rfl

namespace Row

variable {row : Row} {name contents : Text} {leftWidth rightWidth : Nat}
  {lines : List Text}

structure Plain (row : Row) (name contents : Text) : Prop where
  left : ∃ alignment, row.left = .ofText alignment name
  right : ∃ alignment, row.right = .ofText alignment contents
  texts : PlainText name ∧ PlainText contents

theorem Plain.unbroken (plain : row.Plain name contents) : row.Unbroken := by
  obtain ⟨⟨_, left⟩, ⟨_, right⟩, plainName, plainContents⟩ := plain
  rw [Row.Unbroken, left, right]
  exact ⟨List.forall_mem_singleton.mpr fun c member => (plainName.inside c member).2,
    List.forall_mem_singleton.mpr fun c member => (plainContents.inside c member).2⟩

private theorem Plain.prints (plain : row.Plain name contents)
    (prints : row.Prints leftWidth rightWidth lines) :
    ∃ left right, lines = [left ++ '│' :: right] ∧ left.length = leftWidth ∧
      ('│' ∉ left ∧ Trimmed isSpace left name) ∧
        ('│' ∉ right ∧ Trimmed isSpace right contents) := by
  obtain ⟨⟨_, left⟩, ⟨_, right⟩, plainName, plainContents⟩ := plain
  obtain ⟨lefts, rights, rfl, fills, fills'⟩ := prints
  rw [height, left, right] at fills fills'
  cases fills with
  | cons filled others =>
      cases others
      cases fills' with
      | cons filled' others' =>
          cases others'
          exact ⟨_, _, rfl, filled.width, plainName.spaced filled.spaced,
            plainContents.spaced filled'.spaced⟩

end Row

namespace Table

variable {printer : Printer} {table table' : Table} {rows rows' : List (Text × Text)}

def Plain (table : Table) (rows : List (Text × Text)) : Prop :=
  List.Forall₂ (fun row texts => row.Plain texts.1 texts.2) table.allRows rows

private theorem unbroken_of_plain {listed : List Row}
    (plain : List.Forall₂ (fun row texts => row.Plain texts.1 texts.2) listed rows) :
    ∀ row ∈ listed, row.Unbroken := by
  induction plain with
  | nil => exact List.forall_mem_nil _
  | cons first _ induction =>
      exact List.forall_mem_cons.mpr ⟨first.unbroken, induction⟩

theorem Plain.unbroken (plain : table.Plain rows) :
    ∀ row ∈ table.allRows, row.Unbroken :=
  unbroken_of_plain plain

theorem lines_text (documented : printer.Documented)
    (unbroken : ∀ row ∈ table.allRows, row.Unbroken) :
    Text.lines (printer.text table) = printer table := by
  apply Text.lines_flatMap_newline
  intro line member
  have clean := documented.unbroken unbroken line member
  exact ⟨fun inside => (clean _ inside).1 rfl, fun inside => (clean _ inside).2 rfl⟩

private theorem shows_of_prints {listed : List Row} {blocks : List (List Text)}
    {leftWidth rightWidth : Nat}
    (plain : List.Forall₂ (fun row texts => row.Plain texts.1 texts.2) listed rows)
    (prints : List.Forall₂ (fun row block => row.Prints leftWidth rightWidth block)
      listed blocks) :
    List.Forall₂ (fun line row => Shows line row.1 row.2) blocks.flatten rows := by
  induction plain generalizing blocks with
  | nil =>
      cases prints
      exact .nil
  | cons first _ induction =>
      cases prints with
      | cons printed others =>
          obtain ⟨left, right, rfl, _, shown, shown'⟩ := first.prints printed
          exact .cons ⟨left, right, rfl, shown, shown'⟩ (induction others)

theorem Plain.presents (documented : printer.Documented) (plain : table.Plain rows) :
    Presents (printer table) rows := by
  obtain ⟨leftWidth, rightWidth, blocks, prints, filtered⟩ := documented.rows table
  rw [Presents, filtered]
  exact shows_of_prints plain prints

/-- Tables of plain texts with the same text have the same rows. -/
theorem Plain.rows_of_text_eq (documented : printer.Documented)
    (plain : table.Plain rows) (plain' : table'.Plain rows')
    (same : printer.text table = printer.text table') : rows = rows' := by
  have lines := congrArg Text.lines same
  rw [lines_text documented plain.unbroken, lines_text documented plain'.unbroken]
    at lines
  have presents := plain.presents documented
  rw [lines] at presents
  exact presents.unique (plain'.presents documented)

end Table

section Columns

variable {row row' : Row} {leftWidth rightWidth rightWidth' : Nat}

private theorem zipWith_bar_injective {lefts lefts' rights rights' : List Text}
    (wide : ∀ left ∈ lefts, left.length = leftWidth)
    (wide' : ∀ left ∈ lefts', left.length = leftWidth)
    (even : lefts.length = rights.length) (even' : lefts'.length = rights'.length)
    (same : List.zipWith (fun left right => left ++ '│' :: right) lefts rights =
      List.zipWith (fun left right => left ++ '│' :: right) lefts' rights') :
    lefts = lefts' ∧ rights = rights' := by
  induction lefts generalizing rights lefts' rights' with
  | nil =>
      obtain rfl := List.eq_nil_of_length_eq_zero even.symm
      rcases List.zipWith_eq_nil_iff.mp same.symm with rfl | rfl
      · exact ⟨rfl, (List.eq_nil_of_length_eq_zero even'.symm).symm⟩
      · exact ⟨(List.eq_nil_of_length_eq_zero even').symm, rfl⟩
  | cons left rest induction =>
      obtain ⟨right, others, rfl⟩ := List.exists_cons_of_length_eq_add_one even.symm
      obtain ⟨left', rest', right', others', rfl, rfl, joined, below⟩ :=
        List.zipWith_eq_cons_iff.mp same.symm
      obtain ⟨first, more⟩ := List.forall_mem_cons.mp wide
      obtain ⟨first', more'⟩ := List.forall_mem_cons.mp wide'
      obtain ⟨rfl, behind⟩ := List.append_inj joined (first.trans first'.symm)
      obtain ⟨rfl, rfl⟩ := induction more more' (Nat.succ.inj even) (Nat.succ.inj even')
        below
      exact ⟨rfl, by rw [(List.cons.inj behind).2]⟩

private theorem length_of_fills {width : Nat} {lines texts : List Text}
    (fills : List.Forall₂ (Fills width) lines texts) :
    ∀ text ∈ texts, text.length = width := by
  induction fills with
  | nil => exact List.forall_mem_nil _
  | cons first _ induction => exact List.forall_mem_cons.mpr ⟨first.width, induction⟩

/-- Rows with the same lines in columns of one width have the same lines in their
cells, but for the spaces around these. -/
private theorem Row.Prints.exists_columns {lines : List Text}
    (prints : row.Prints leftWidth rightWidth lines)
    (prints' : row'.Prints leftWidth rightWidth' lines) :
    ∃ lefts rights,
      (List.Forall₂ Spaced (row.left.filled row.height) lefts ∧
        List.Forall₂ Spaced (row'.left.filled row'.height) lefts) ∧
      List.Forall₂ Spaced (row.right.filled row.height) rights ∧
        List.Forall₂ Spaced (row'.right.filled row'.height) rights := by
  obtain ⟨lefts, rights, rfl, fills, behind⟩ := prints
  obtain ⟨lefts', rights', same, fills', behind'⟩ := prints'
  have even (row : Row) :
      (row.left.filled row.height).length = (row.right.filled row.height).length := by
    have left : (row.left.filled row.height).length = row.height :=
      Cell.length_filled (Nat.le_max_left _ _)
    exact left.trans (Cell.length_filled (Nat.le_max_right _ _)).symm
  obtain ⟨rfl, rfl⟩ := zipWith_bar_injective (length_of_fills fills)
    (length_of_fills fills') (fills.length_eq.symm.trans ((even row).trans behind.length_eq))
    (fills'.length_eq.symm.trans ((even row').trans behind'.length_eq)) same
  exact ⟨lefts, rights,
    ⟨fills.imp fun _ _ filled => filled.spaced, fills'.imp fun _ _ filled => filled.spaced⟩,
    behind.imp fun _ _ filled => filled.spaced, behind'.imp fun _ _ filled => filled.spaced⟩

end Columns

namespace Dump

variable {printer : Printer} {memory memory' registers registers' : Table}
  {cells cells' words words' : List (Text × Text)}

private theorem plain_sideBySide_title (printer : Printer) (memory registers : Table) :
    (sideBySide printer memory registers).title.Plain "Memory".toList
      "Processor".toList :=
  ⟨⟨_, rfl⟩, ⟨_, rfl⟩, plainText_of_solid (by decide), plainText_of_solid (by decide)⟩

private theorem unbroken_sideBySide (documented : printer.Documented)
    (plain : memory.Plain cells) (plain' : registers.Plain words) :
    ∀ row ∈ (sideBySide printer memory registers).allRows, row.Unbroken := by
  refine List.forall_mem_cons.mpr ⟨?_, List.forall_mem_singleton.mpr ⟨?_, ?_⟩⟩
  · exact (plain_sideBySide_title printer memory registers).unbroken
  · exact documented.unbroken plain.unbroken
  · exact documented.unbroken plain'.unbroken

private theorem lines_sideBySide (documented : printer.Documented)
    (memory registers : Table) :
    ∃ left right rightWidth lines,
      (printer (sideBySide printer memory registers)).filter barred =
        (left ++ '│' :: right) :: lines ∧ ('│' ∉ left ∧ '│' ∉ right) ∧
      (Row.mk (printer.cell memory) (printer.cell registers)).Prints left.length
        rightWidth lines := by
  obtain ⟨leftWidth, rightWidth, blocks, prints, filtered⟩ :=
    documented.rows (sideBySide printer memory registers)
  cases prints with
  | cons first others =>
      obtain ⟨left, right, rfl, rfl, ⟨bare, _⟩, bare', _⟩ :=
        (plain_sideBySide_title printer memory registers).prints first
      cases others with
      | @cons _ lines _ _ second none =>
          cases none
          refine ⟨left, right, rightWidth, lines, ?_, ⟨bare, bare'⟩, second⟩
          rw [filtered]
          simp

/-- Two tables side by side are both told by the text of the whole. -/
theorem rows_of_sideBySide_text_eq (documented : printer.Documented)
    (plain : memory.Plain cells) (plain' : memory'.Plain cells')
    (other : registers.Plain words) (other' : registers'.Plain words')
    (same : printer.text (sideBySide printer memory registers) =
      printer.text (sideBySide printer memory' registers')) :
    cells = cells' ∧ words = words' := by
  have lines := congrArg Text.lines same
  rw [Table.lines_text documented (unbroken_sideBySide documented plain other),
    Table.lines_text documented (unbroken_sideBySide documented plain' other')] at lines
  obtain ⟨left, right, width, below, split, ⟨bare, bare'⟩, prints⟩ :=
    lines_sideBySide documented memory registers
  obtain ⟨left', right', width', below', split', _, prints'⟩ :=
    lines_sideBySide documented memory' registers'
  rw [lines, split'] at split
  obtain ⟨titles, rfl⟩ := List.cons.inj split
  obtain ⟨rfl, _, rfl⟩ := (List.append_cons_inj_of_notMem bare bare').mp titles.symm
  obtain ⟨lefts, rights, ⟨spaced, spaced'⟩, behind, behind'⟩ :=
    prints.exists_columns prints'
  have memories : Presents (printer.cell memory).lines cells := plain.presents documented
  have memories' : Presents (printer.cell memory').lines cells' :=
    plain'.presents documented
  have processors : Presents (printer.cell registers).lines words :=
    other.presents documented
  have processors' : Presents (printer.cell registers').lines words' :=
    other'.presents documented
  exact ⟨((memories.filled _).spaced spaced).unique ((memories'.filled _).spaced spaced'),
    ((processors.filled _).spaced behind).unique ((processors'.filled _).spaced behind')⟩

end Dump

end WordMachine
