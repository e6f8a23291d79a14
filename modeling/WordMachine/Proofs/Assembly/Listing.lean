import WordMachine.Proofs.Assembly.Token
import WordMachine.Proofs.Program.HexText

namespace WordMachine

/-! A listing is a program as it is printed: an instruction, a constant or a word
a line, and data below a bare `halt`. It is assembled to the words it was printed
from. -/

namespace Opcode

theorem lower_mnemonic (opcode : Opcode) :
    opcode.mnemonic.lower = opcode.mnemonic := by
  cases opcode <;> rfl

end Opcode

namespace Register

def numeral (register : Register) : Text :=
  Nat.toDigits 10 register.val

theorem toList_text (register : Register) :
    (toString register.text).toList = register.numeral :=
  Nat.toList_repr

end Register

namespace Instruction

def printed (instruction : Instruction) : List Text :=
  instruction.opcode.mnemonic ::
    ([instruction.target, instruction.operand].take
      instruction.opcode.arity).map Register.numeral

variable {instruction : Instruction}

private theorem printed_of_ne_loadc (other : instruction.opcode ≠ .loadc) :
    instruction.printed = [instruction.opcode.mnemonic,
      instruction.target.numeral, instruction.operand.numeral] := by
  rw [printed, Opcode.arity_of_ne_loadc other]
  rfl

theorem toList_text (instruction : Instruction) :
    instruction.text.toList = Text.unwords instruction.printed := by
  have name : (toString instruction.opcode.name).toList =
      instruction.opcode.mnemonic := String.toList_ofList
  have space : (toString " ").toList = [' '] := rfl
  rw [text]
  split
  next one =>
      rw [printed, one]
      simp [name, space, Register.toList_text, Text.unwords, List.intercalate]
  next several =>
      have two := (Assembly.arity_eq_one_or_two instruction.opcode).resolve_left
        several
      rw [printed, two]
      simp [name, space, Register.toList_text, Text.unwords, List.intercalate]

end Instruction

namespace Assembly

open Numeral

private theorem bare_numeral (register : Register) : Bare register.numeral :=
  bare_of_hexDigit? (denotes_toDigits register.val).ne_nil fun _ member =>
    hexDigit?_ne_none_of_decimalDigit?
      ((denotes_toDigits register.val).digit_ne_none member)

private theorem bare_mnemonic (opcode : Opcode) : Bare opcode.mnemonic := by
  have solid : opcode.mnemonic.all (fun c => !isBlank c) = true := by
    cases opcode <;> rfl
  constructor
  case present => cases opcode <;> exact List.cons_ne_nil _ _
  case solid =>
    intro c member
    exact (Bool.not_eq_true' _).mp (List.all_eq_true.mp solid c member)
  case uncommented => cases opcode <;> decide

private theorem bare_printed {instruction : Instruction} {token : Text}
    (member : token ∈ instruction.printed) : Bare token := by
  rcases List.mem_cons.mp member with rfl | operand
  · exact bare_mnemonic instruction.opcode
  · obtain ⟨register, _, rfl⟩ := List.mem_map.mp operand
    exact bare_numeral register

theorem names_numeral (register : Register) :
    Names register.numeral register :=
  .bare (denotes_toDigits register.val)

private theorem after_printed (instruction : Instruction) :
    Region.after .instructions instruction.printed =
      if instruction.opcode = .loadc then .constant else .instructions := by
  have noEnd : ¬ endsInstructions instruction.printed = true := by
    rw [endsInstructions_iff, Instruction.printed]
    rcases arity_eq_one_or_two instruction.opcode with arity | arity
    · simp [arity]
    · simp [arity]
  have awaits : awaitsConstant instruction.printed = true ↔
      instruction.opcode = .loadc := by
    rw [Instruction.printed, awaitsConstant, Text.sameLetters_iff,
      Opcode.lower_mnemonic, Opcode.lower_mnemonic, Opcode.mnemonic_inj]
  rw [Region.after, if_neg noEnd]
  simp only [awaits]

private theorem reads_printed {instruction : Instruction}
    (other : instruction.opcode ≠ .loadc) :
    Reads .instructions instruction.printed (.instruction instruction) := by
  rw [Instruction.printed_of_ne_loadc other]
  exact .binary (Opcode.lower_mnemonic _) (Opcode.arity_of_ne_loadc other)
    (names_numeral _) (names_numeral _)

private theorem reads_printed_loadc {instruction : Instruction}
    (loads : instruction.opcode = .loadc)
    (single : instruction.operand.val = 0) :
    Reads .instructions instruction.printed (.instruction instruction) := by
  obtain ⟨opcode, target, operand⟩ := instruction
  cases loads
  cases (Fin.ext single : operand = 0)
  exact .unary (Opcode.lower_mnemonic _) rfl (names_numeral target)

/-- Rows that are read one after another, from the region of the first to the one
that they lead to. -/
private inductive Spells : Region → List Text → List Content → Region → Prop
  | nil {region : Region} : Spells region [] [] region
  | cons {region last : Region} {row : Text} {rows : List Text}
      {content : Content} {contents : List Content}
      (clean : '\n' ∉ row ∧ '\r' ∉ row)
      (reads : Reads region (tokens row) content)
      (others : Spells (region.after (tokens row)) rows contents last) :
      Spells region (row :: rows) (content :: contents) last

private theorem Spells.unwords {region last : Region} {found : List Text}
    {rows : List Text} {content : Content} {contents : List Content}
    (bare : ∀ token ∈ found, Bare token) (reads : Reads region found content)
    (others : Spells (region.after found) rows contents last) :
    Spells region (Text.unwords found :: rows) (content :: contents) last := by
  refine .cons (clean_unwords bare) ?_ ?_
  · rw [tokens_unwords bare]
    exact reads
  · rw [tokens_unwords bare]
    exact others

private theorem Spells.hex8 {region last : Region} {word : Word} {rows : List Text}
    {contents : List Content} (reads : Reads region [word.hex8] (.constant word))
    (others : Spells (region.after [word.hex8]) rows contents last) :
    Spells region (word.hex8 :: rows) (.constant word :: contents) last := by
  rw [← Text.unwords_singleton word.hex8]
  exact .unwords (List.forall_mem_singleton.mpr (bare_hex8 word)) reads others

private theorem Spells.append {first middle last : Region} {rows rows' : List Text}
    {contents contents' : List Content}
    (spells : Spells first rows contents middle)
    (spells' : Spells middle rows' contents' last) :
    Spells first (rows ++ rows') (contents ++ contents') last := by
  induction spells with
  | nil => exact spells'
  | cons clean reads _ induction => exact .cons clean reads (induction spells')

private theorem Spells.clean {region last : Region} {rows : List Text}
    {contents : List Content} (spells : Spells region rows contents last) :
    ∀ row ∈ rows, '\n' ∉ row ∧ '\r' ∉ row := by
  induction spells with
  | nil => exact List.forall_mem_nil _
  | cons clean _ _ induction => exact List.forall_mem_cons.mpr ⟨clean, induction⟩

/-- Every row is a statement, and its word is that of its content. -/
private theorem Spells.statements {region last : Region} {rows : List Text}
    {contents : List Content} (spells : Spells region rows contents last)
    (start : Nat) :
    (statementsFrom region (rows.zipIdx start)).mapM Statement.locatedWord =
        .ok (contents.map Content.word) ∧
      (statementsFrom region (rows.zipIdx start)).map Statement.line =
        List.range' start contents.length := by
  induction spells generalizing start with
  | nil => exact ⟨rfl, rfl⟩
  | @cons region last row rows content contents _ reads _ induction =>
      have present : tokens row ≠ [] := by
        intro blank
        rw [blank] at reads
        cases reads
      have first : Statement.locatedWord ⟨start, region, tokens row⟩ =
          .ok content.word :=
        Statement.locatedWord_eq_ok_iff.mpr
          ⟨content, reads, content.occupies_word⟩
      obtain ⟨words, lines⟩ := induction (start + 1)
      rw [List.zipIdx_cons, statementsFrom_cons region start _ present]
      constructor
      · rw [List.mapM_cons, first, words]
        rfl
      · rw [List.map_cons, lines]
        rfl

private theorem Spells.assemble {last : Region} {rows : List Text}
    {contents : List Content} (spells : Spells .instructions rows contents last) :
    Program.assemble (rows.flatMap fun row => row ++ ['\n']) =
      .ok ⟨contents.map Content.word,
        some (List.range' 1 contents.length)⟩ := by
  obtain ⟨words, lines⟩ := spells.statements 1
  rw [Program.assemble_eq_ok_iff, Assembly.statements, Text.numberedLines,
    Text.lines_flatMap_newline spells.clean]
  exact ⟨words, congrArg some lines.symm⟩

/-- What a listing has in its instructions: an instruction with two registers, a
`loadc` with its constant, or a bare word. -/
inductive Item where
  | instruction (decoded : Instruction) (other : decoded.opcode ≠ .loadc)
  | loadc (decoded : Instruction) (loads : decoded.opcode = .loadc)
      (single : decoded.operand.val = 0) (constant : Word)
  | raw (word : Word)

namespace Item

def rows : Item → List Text
  | .instruction decoded _ => [decoded.text.toList]
  | .loadc decoded _ _ constant => [decoded.text.toList, constant.hex8]
  | .raw word => [word.hex8]

def contents : Item → List Content
  | .instruction decoded _ => [.instruction decoded]
  | .loadc decoded _ _ constant => [.instruction decoded, .constant constant]
  | .raw word => [.constant word]

end Item

/-- Items, and the data below a bare `halt` if the listing has one. -/
structure Listing where
  items : List Item
  data : Option (List Word)

namespace Listing

def rows (listing : Listing) : List Text :=
  listing.items.flatMap Item.rows ++
    match listing.data with
    | none => []
    | some words => Opcode.halt.mnemonic :: words.map Word.hex8

def text (listing : Listing) : Text :=
  listing.rows.flatMap fun row => row ++ ['\n']

def contents (listing : Listing) : List Content :=
  listing.items.flatMap Item.contents

def words (listing : Listing) : List Word :=
  listing.contents.map Content.word ++
    match listing.data with
    | none => []
    | some words => 0 :: words

end Listing

private theorem spells_item (item : Item) :
    Spells .instructions item.rows item.contents .instructions := by
  cases item with
  | instruction decoded other =>
      rw [Item.rows, decoded.toList_text]
      refine .unwords (fun _ => bare_printed) (reads_printed other) ?_
      rw [after_printed, if_neg other]
      exact .nil
  | loadc decoded loads single constant =>
      rw [Item.rows, decoded.toList_text]
      refine .unwords (fun _ => bare_printed) (reads_printed_loadc loads single) ?_
      rw [after_printed, if_pos loads]
      exact .hex8 (.constant (literal_hex8 constant)) .nil
  | raw word =>
      refine .hex8 (.lone (lower_hex8_ne_mnemonic word) (literal_hex8 word)) ?_
      rw [Program.after_hex8]
      exact .nil

private theorem spells_items (items : List Item) :
    Spells .instructions (items.flatMap Item.rows)
      (items.flatMap Item.contents) .instructions := by
  induction items with
  | nil => exact .nil
  | cons item rest induction => exact (spells_item item).append induction

private theorem spells_data (words : List Word) :
    Spells .data (words.map Word.hex8) (words.map Content.constant) .data := by
  induction words with
  | nil => exact .nil
  | cons word rest induction =>
      exact .hex8 (.datum (literal_hex8 word)) induction

private theorem spells_halt (words : List Word) :
    Spells .instructions (Opcode.halt.mnemonic :: words.map Word.hex8)
      (.instruction ⟨.halt, 0, 0⟩ :: words.map Content.constant) .data := by
  have bare : ∀ token ∈ [Opcode.halt.mnemonic], Bare token :=
    List.forall_mem_singleton.mpr (bare_mnemonic .halt)
  rw [← Text.unwords_singleton Opcode.halt.mnemonic]
  exact .unwords bare (.halt rfl) (spells_data words)

private theorem spells_listing (listing : Listing) :
    ∃ contents last, Spells .instructions listing.rows contents last ∧
      contents.map Content.word = listing.words := by
  obtain ⟨items, data⟩ := listing
  cases data with
  | none =>
      refine ⟨_, _, (spells_items items).append .nil, ?_⟩
      rw [List.map_append]
      rfl
  | some words =>
      refine ⟨_, _, (spells_items items).append (spells_halt words), ?_⟩
      have datum : Content.word ∘ Content.constant = id := rfl
      rw [List.map_append, List.map_cons, List.map_map, datum, List.map_id]
      rfl

/-- A listing is assembled to the words of its instructions, constants, bare words
and data, one a line. Each word of an instruction is decoded to the instruction,
also that of the bare `halt`. -/
theorem printed_listing_assembles_back (listing : Listing) :
    Program.assemble listing.text =
        .ok ⟨listing.words, some (List.range' 1 listing.words.length)⟩ ∧
      (∀ (index : Nat) (decoded : Instruction),
        listing.contents[index]? = some (.instruction decoded) →
          ∃ word, listing.words[index]? = some word ∧
            Instruction.decode word = .ok decoded) ∧
      ∀ data, listing.data = some data →
        listing.words[listing.contents.length]? = some 0 ∧
          Instruction.decode 0 = .ok ⟨.halt, 0, 0⟩ := by
  refine ⟨?_, ?_, ?_⟩
  · obtain ⟨contents, last, spells, words⟩ := spells_listing listing
    rw [← words, List.length_map]
    exact spells.assemble
  · intro index decoded found
    have inside := (List.getElem?_eq_some_iff.mp found).1
    refine ⟨decoded.encode, ?_, decoded.decode_encode⟩
    rw [Listing.words, List.getElem?_append_left (by rwa [List.length_map]),
      List.getElem?_map, found]
    rfl
  · intro data present
    refine ⟨?_, rfl⟩
    rw [Listing.words, present, List.getElem?_append_right (by rw [List.length_map]),
      List.length_map, Nat.sub_self]
    rfl

end Assembly

end WordMachine
