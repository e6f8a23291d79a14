import WordMachine.Dump.Machine
import WordMachine.Proofs.Dump.Table
import WordMachine.Proofs.Memory.Access
import WordMachine.Proofs.Word.Digits

namespace WordMachine

/-! What the dumps of a machine tell about it: machines that differ in what a table
lists have different tables. -/

open Numeral

section Texts

variable {text front back : Text}

theorem plainText_of_hexDigits (digits : ∀ c ∈ text, hexDigit? c ≠ none) :
    PlainText text := by
  apply plainText_of_solid
  rw [List.all_eq_true]
  intro c member
  by_contra blank
  simp only [isSolid, List.contains_eq_mem, List.mem_cons, List.not_mem_nil, or_false,
    Bool.not_eq_true', decide_eq_false_iff_not, not_not] at blank
  rcases blank with rfl | rfl | rfl | rfl <;> exact digits _ member rfl

theorem PlainText.append (plain : PlainText front) (plain' : PlainText back) :
    PlainText (front ++ back) := by
  refine ⟨⟨?_, ?_⟩, List.forall_mem_append.mpr ⟨plain.inside, plain'.inside⟩⟩
  · intro c first
    rw [List.head?_append, Option.mem_def, Option.or_eq_some_iff] at first
    rcases first with own | ⟨_, other⟩
    · exact plain.opens c own
    · exact plain'.opens c other
  · intro c last
    rw [List.getLast?_append, Option.mem_def, Option.or_eq_some_iff] at last
    rcases last with other | ⟨_, own⟩
    · exact plain'.closes c other
    · exact plain.closes c own

theorem PlainText.append_space (plain : PlainText front) (plain' : PlainText back)
    (present : front ≠ []) (present' : back ≠ []) : PlainText (front ++ ' ' :: back) := by
  refine ⟨⟨?_, ?_⟩, ?_⟩
  · rw [List.head?_append_of_ne_nil front present]
    exact plain.opens
  · rw [List.getLast?_append_of_ne_nil front (List.cons_ne_nil ' ' back),
      List.getLast?_cons_of_ne_nil present']
    exact plain'.closes
  · refine List.forall_mem_append.mpr ⟨plain.inside, ?_⟩
    exact List.forall_mem_cons.mpr ⟨by decide, plain'.inside⟩

theorem Word.plain_hex (word : Word) : PlainText word.hex :=
  plainText_of_hexDigits fun _ member => word.denotes_hex.digit_ne_none member

end Texts

namespace Dump

variable {name label : Text} {marked marked' : Option Nat} {words words' : List Word}

def mark (marked : Option Nat) (index : Nat) : Text :=
  if marked = some index then arrow else []

theorem mark_eq_arrow_iff {index : Nat} :
    mark marked index = arrow ↔ marked = some index := by
  unfold mark
  split
  next same => exact iff_of_true rfl same
  next other => exact iff_of_false (by decide) other

def caption (name : Text) (marked : Option Nat) (index : Nat) : Text :=
  mark marked index ++ Dump.label name index ++ [' ', '=']

def heading : Text × Text :=
  ("Address".toList, "Contents".toList)

def entries (name : Text) (marked : Option Nat) (words : List Word) :
    List (Text × Text) :=
  words.zipIdx.map fun (word, index) => (caption name marked index, word.hex)

private theorem plain_label (named : PlainText name) (index : Nat) :
    PlainText (Dump.label name index) := by
  have number : PlainText (Nat.toDigits 10 index) :=
    plainText_of_hexDigits fun _ member =>
      hexDigit?_ne_none_of_decimalDigit? ((denotes_toDigits index).digit_ne_none member)
  have closing : PlainText [']'] := plainText_of_solid (by decide)
  have opening : PlainText ['['] := plainText_of_solid (by decide)
  exact (named.append (opening.append number)).append closing

theorem plain_row (plain : PlainText label) (present : label ≠ []) (word : Word) :
    (row label word).Plain (label ++ [' ', '=']) word.hex := by
  have equals : PlainText ['='] := plainText_of_solid (by decide)
  exact ⟨⟨_, rfl⟩, ⟨_, rfl⟩, plain.append_space equals present (by simp),
    word.plain_hex⟩

theorem plain_title : title.Plain heading.1 heading.2 :=
  ⟨⟨_, rfl⟩, ⟨_, rfl⟩, plainText_of_solid (by decide), plainText_of_solid (by decide)⟩

theorem plain_wordRows (named : PlainText name) (marked : Option Nat)
    (words : List Word) :
    List.Forall₂ (fun row texts => row.Plain texts.1 texts.2)
      (wordRows name marked words) (entries name marked words) := by
  rw [wordRows, entries, List.forall₂_map_left_iff, List.forall₂_map_right_iff,
    List.forall₂_same]
  rintro ⟨word, index⟩ _
  have labelled := plain_label named index
  have present : Dump.label name index ≠ [] := by simp [Dump.label]
  simp only [caption, mark]
  split
  · have star : PlainText ['*'] := plainText_of_solid (by decide)
    have shaft : PlainText ['-', '-', '>'] := plainText_of_solid (by decide)
    have arrow := star.append_space shaft (List.cons_ne_nil _ _) (List.cons_ne_nil _ _)
    have marked := arrow.append_space labelled (List.cons_ne_nil _ _) present
    exact plain_row marked (List.cons_ne_nil _ _) word
  · exact plain_row labelled present word

theorem plain_memoryTable (memory : Memory) (marked : Option Nat) :
    (memoryTable memory marked).Plain
      (heading :: entries "Cell".toList marked memory.cells) := by
  refine .cons plain_title (plain_wordRows ?_ marked memory.cells)
  exact plainText_of_solid (by decide)

private def registerEntries (cpu : Cpu) : List (Text × Text) :=
  entries "Register".toList none cpu.registers.toList ++
    [(['P', 'C'] ++ [' ', '='], cpu.pc.hex), (['I', 'R'] ++ [' ', '='], cpu.ir.hex)]

private theorem plain_registerTable (cpu : Cpu) :
    (registerTable cpu).Plain (heading :: registerEntries cpu) := by
  refine .cons plain_title (List.rel_append ?_ ?_)
  · apply plain_wordRows
    exact plainText_of_solid (by decide)
  · refine .cons (plain_row ?_ (by decide) cpu.pc)
      (.cons (plain_row ?_ (by decide) cpu.ir) .nil)
    · exact plainText_of_solid (by decide)
    · exact plainText_of_solid (by decide)

private theorem getElem?_entries (index : Nat) :
    (entries name marked words)[index]? =
      words[index]?.map fun word => (caption name marked index, word.hex) := by
  rw [entries, List.getElem?_map, List.getElem?_zipIdx, Option.map_map, Nat.zero_add]
  rfl

/-- The entries tell the words, and which of them is marked. -/
theorem entries_injective
    (same : entries name marked words = entries name marked' words') :
    words = words' ∧
      ∀ index < words.length, marked = some index ↔ marked' = some index := by
  have contents (marked : Option Nat) (words : List Word) :
      (entries name marked words).map Prod.snd = words.map Word.hex := by
    rw [entries, List.map_map, ← List.zipIdx_map_fst 0 words, List.map_map,
      List.zipIdx_map_fst]
    rfl
  have hexes := congrArg (List.map Prod.snd) same
  rw [contents, contents] at hexes
  obtain rfl : words = words' :=
    List.map_injective_iff.mpr (fun _ _ => Word.hex_injective) hexes
  refine ⟨rfl, fun index bound => ?_⟩
  have each := congrArg (fun texts => texts[index]?) same
  simp only [getElem?_entries, List.getElem?_eq_getElem bound, Option.map_some,
    Option.some.injEq, Prod.mk.injEq, and_true] at each
  have marks : mark marked index = mark marked' index :=
    List.append_cancel_right (List.append_cancel_right each)
  rw [← mark_eq_arrow_iff, marks, mark_eq_arrow_iff]

private theorem registerEntries_injective {cpu cpu' : Cpu}
    (same : registerEntries cpu = registerEntries cpu') : cpu = cpu' := by
  obtain ⟨registers, rest⟩ := List.append_inj' same rfl
  have general := Vector.toList_inj.mp (entries_injective registers).1
  simp only [List.cons.injEq, Prod.mk.injEq, true_and, and_true] at rest
  obtain ⟨pc, ir⟩ := rest
  cases cpu
  cases cpu'
  rw [Cpu.mk.injEq]
  exact ⟨general, Word.hex_injective pc, Word.hex_injective ir⟩

end Dump

namespace Memory

@[simp] theorem length_cells (memory : Memory) :
    memory.cells.length = memory.capacity := by
  rw [cells, List.length_map, List.length_range]

theorem eq_of_cells_eq {memory memory' : Memory} (same : memory.cells = memory'.cells) :
    memory.capacity = memory'.capacity ∧
      ∀ index, memory.cell index = memory'.cell index := by
  have capacity : memory.capacity = memory'.capacity := by
    simpa using congrArg List.length same
  refine ⟨capacity, fun index => ?_⟩
  by_cases inside : index < memory.capacity
  · rw [cells, cells, ← capacity] at same
    exact List.map_inj_left.mp same index (List.mem_range.mpr inside)
  · rw [cell_eq_zero memory (Nat.le_of_not_lt inside),
      cell_eq_zero memory' (capacity ▸ Nat.le_of_not_lt inside)]

end Memory

namespace Machine

variable {first second : Machine}

/-- The index of the cell that the program counter names, within memory or beyond. -/
def marked (machine : Machine) : Option Nat :=
  if 0 ≤ machine.pc.value then some machine.pc.value.toNat else none

theorem marked_eq_some_iff {machine : Machine} {index : Nat} :
    machine.marked = some index ↔ machine.pc.value = index := by
  unfold marked
  split
  next nonnegative =>
      rw [Option.some.injEq]
      omega
  next negative => exact iff_of_false nofun (by omega)

private def memoryEntries (machine : Machine) : List (Text × Text) :=
  Dump.entries "Cell".toList machine.marked machine.memory.cells

private theorem plain_memoryTable (machine : Machine) :
    machine.memoryTable.Plain (Dump.heading :: machine.memoryEntries) :=
  Dump.plain_memoryTable machine.memory machine.marked

theorem eq_of_inRange {capacity : Nat} {address address' : Word}
    (inside : address.InRange capacity)
    (same : ∀ index < capacity, address.value = index ↔ address'.value = index) :
    address = address' := by
  obtain ⟨nonnegative, below⟩ := inside
  have index : address.value = address.value.toNat := by omega
  have equal := (same address.value.toNat (by omega)).mp index
  exact BitVec.eq_of_toInt_eq (index.trans equal.symm)

private theorem pc_eq_or_outside {capacity : Nat}
    (same : ∀ index < capacity, first.pc.value = index ↔ second.pc.value = index) :
    first.pc = second.pc ∧ first.pc.InRange capacity ∨
      ¬ first.pc.InRange capacity ∧ ¬ second.pc.InRange capacity := by
  by_cases inside : first.pc.InRange capacity
  · exact .inl ⟨eq_of_inRange inside same, inside⟩
  · refine .inr ⟨inside, ?_⟩
    intro inside'
    have equal := eq_of_inRange inside' fun index bound => (same index bound).symm
    exact inside (equal ▸ inside')

private theorem memory_of_memoryEntries_eq
    (same : first.memoryEntries = second.memoryEntries) :
    (first.memory.capacity = second.memory.capacity ∧
      ∀ index, first.memory.cell index = second.memory.cell index) ∧
    (first.pc = second.pc ∧ first.pc.InRange first.memory.capacity ∨
      ¬ first.pc.InRange first.memory.capacity ∧
        ¬ second.pc.InRange second.memory.capacity) := by
  obtain ⟨cells, marks⟩ := Dump.entries_injective same
  have memories := Memory.eq_of_cells_eq cells
  refine ⟨memories, ?_⟩
  rw [← memories.1]
  apply pc_eq_or_outside
  intro index bound
  rw [← marked_eq_some_iff, ← marked_eq_some_iff]
  exact marks index (by rwa [Memory.length_cells])

/-- An arrow stands in no line but that of the marked cell: no other part of a line
has a star. -/
theorem arrow_infix_iff {marked : Option Nat} {index : Nat} {line : Text} {word : Word}
    (shown : Shows line (Dump.caption "Cell".toList marked index) word.hex) :
    Dump.arrow <:+: line ↔ marked = some index := by
  rw [← Dump.mark_eq_arrow_iff]
  constructor
  · intro arrow
    have star : '*' ∈ line := arrow.subset List.mem_cons_self
    have inHex : '*' ∉ word.hex := fun member =>
      word.denotes_hex.digit_ne_none member (by decide)
    have inNumber : '*' ∉ Nat.toDigits 10 index := fun member =>
      (denotes_toDigits index).digit_ne_none member (by decide)
    have inMark : '*' ∈ Dump.mark marked index := by
      rcases shown.mem star with impossible | caption | contents
      · exact absurd impossible (by decide)
      · simpa [Dump.caption, Dump.label, inNumber] using caption
      · exact absurd contents inHex
    unfold Dump.mark at inMark ⊢
    split at inMark
    next same => exact if_pos same
    next => cases inMark
  · intro marks
    rw [Dump.caption, marks] at shown
    have caption : Dump.arrow <:+: Dump.arrow ++ Dump.label "Cell".toList index ++
        [' ', '='] := ⟨[], _, List.append_assoc _ _ _ |>.symm⟩
    exact caption.trans shown.name_infix

private theorem memoryTable_rows {printer : Printer} (documented : printer.Documented)
    (machine : Machine) :
    ∃ title rows,
      (Text.lines (printer.text machine.memoryTable)).filter barred = title :: rows ∧
        rows.length = machine.memory.capacity ∧
        ∀ (index : Nat) (line : Text), rows[index]? = some line →
          Shows line (Dump.caption "Cell".toList machine.marked index)
            (machine.memory.cell index).hex := by
  have plain := plain_memoryTable machine
  have presents := plain.presents documented
  rw [← Table.lines_text documented plain.unbroken] at presents
  cases shown : (Text.lines (printer.text machine.memoryTable)).filter barred with
  | nil =>
      rw [Presents, shown] at presents
      cases presents
  | cons title rows =>
      rw [Presents, shown] at presents
      obtain ⟨_, each⟩ := List.forall₂_cons.mp presents
      refine ⟨title, rows, rfl, ?_, ?_⟩
      · rw [each.length_eq, memoryEntries, Dump.entries, List.length_map,
          List.length_zipIdx, Memory.length_cells]
      · intro index line found
        obtain ⟨bound, rfl⟩ := List.getElem?_eq_some_iff.mp found
        have row := each.get bound (each.length_eq ▸ bound)
        simpa [memoryEntries, Dump.entries, Memory.cells] using row

/-- The dumps of a machine are faithful. Equal memory tables list equal cells, and
have their arrow in the same place or nowhere; equal register tables show equal
processors; and equal displays show both. The rows of a memory table are the cells
in the order of their addresses, with an arrow in the row of the program counter
and in no other. -/
theorem dumps_are_faithful {printer : Printer} (documented : printer.Documented)
    (first second : Machine) :
    (printer.text first.memoryTable = printer.text second.memoryTable →
      (first.memory.capacity = second.memory.capacity ∧
        ∀ index, first.memory.cell index = second.memory.cell index) ∧
      (first.pc = second.pc ∧ first.pc.InRange first.memory.capacity ∨
        ¬ first.pc.InRange first.memory.capacity ∧
          ¬ second.pc.InRange second.memory.capacity)) ∧
    (printer.text first.registerTable = printer.text second.registerTable →
      first.processor.cpu = second.processor.cpu) ∧
    (first.displayBy printer = second.displayBy printer →
      (first.memory.capacity = second.memory.capacity ∧
        ∀ index, first.memory.cell index = second.memory.cell index) ∧
      first.processor.cpu = second.processor.cpu) ∧
    ∃ title rows,
      (Text.lines (printer.text first.memoryTable)).filter barred = title :: rows ∧
        rows.length = first.memory.capacity ∧
        ∀ (index : Nat) (line : Text), rows[index]? = some line →
          (Dump.arrow <:+: line ↔ first.pc.value = index) ∧
            Shows line
              ((if first.pc.value = index then Dump.arrow else []) ++
                Dump.label "Cell".toList index ++ [' ', '='])
              (first.memory.cell index).hex := by
  have registers := Dump.plain_registerTable first.processor.cpu
  have registers' := Dump.plain_registerTable second.processor.cpu
  have cells := plain_memoryTable first
  have cells' := plain_memoryTable second
  refine ⟨?_, ?_, ?_, ?_⟩
  · intro same
    have rows := cells.rows_of_text_eq documented cells' same
    exact memory_of_memoryEntries_eq (List.cons.inj rows).2
  · intro same
    have rows := registers.rows_of_text_eq documented registers' same
    exact Dump.registerEntries_injective (List.cons.inj rows).2
  · intro same
    obtain ⟨memory, processor⟩ :=
      Dump.rows_of_sideBySide_text_eq documented cells cells' registers registers' same
    exact ⟨(memory_of_memoryEntries_eq (List.cons.inj memory).2).1,
      Dump.registerEntries_injective (List.cons.inj processor).2⟩
  · obtain ⟨title, rows, lines, length, each⟩ := memoryTable_rows documented first
    refine ⟨title, rows, lines, length, fun index line found => ?_⟩
    have shown := each index line found
    rw [arrow_infix_iff shown, marked_eq_some_iff]
    simp only [Dump.caption, Dump.mark, marked_eq_some_iff] at shown
    exact ⟨Iff.rfl, shown⟩

/-- Printed in plain text, an empty memory and one of a single zero differ. -/
theorem dumps_are_faithful_of_empty_memory :
    let machine (capacity : Nat) := Machine.new { Config.defaults with capacity := capacity }
    Printer.Documented Table.lines ∧ (machine 0).display ≠ (machine 1).display := by
  intro machine
  refine ⟨Table.documented_lines, fun same => ?_⟩
  obtain ⟨_, _, shown, _⟩ :=
    dumps_are_faithful Table.documented_lines (machine 0) (machine 1)
  exact absurd (shown same).1.1 (by decide)

end Machine

end WordMachine
