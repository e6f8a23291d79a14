import WordMachine.Program.HexImage
import WordMachine.Proofs.Assembly.Grammar
import WordMachine.Proofs.Assembly.Token
import WordMachine.Proofs.Word.Digits

namespace WordMachine

/-! The text of a program in eight-digit words is an image and an assembly text
at once. Both readings give the words back. -/

namespace Assembly

open Numeral

theorem literal_hex8 (word : Word) : Literal word.hex8 word :=
  .of_denotes word.denotes_hex8

theorem constant_hex8 (word : Word) : constant word.hex8 = .ok word :=
  constant_eq_ok_iff_literal.mpr (literal_hex8 word)

theorem bare_of_hexDigit? {token : Text} (present : token ≠ [])
    (digits : ∀ c ∈ token, hexDigit? c ≠ none) : Bare token where
  present := present
  solid c member := isBlank_eq_false_of_hexDigit? (digits c member)
  uncommented member := digits '#' member rfl

theorem bare_hex8 (word : Word) : Bare word.hex8 :=
  bare_of_hexDigit? word.denotes_hex8.ne_nil fun _ =>
    word.denotes_hex8.digit_ne_none

theorem tokens_hex8 (word : Word) : tokens word.hex8 = [word.hex8] := by
  have whole := tokens_unwords (List.forall_mem_singleton.mpr (bare_hex8 word))
  rwa [Text.unwords_singleton] at whole

private theorem length_mnemonic_le (opcode : Opcode) : opcode.mnemonic.length ≤ 6 := by
  cases opcode <;> decide

theorem lower_hex8_ne_mnemonic (word : Word) (opcode : Opcode) :
    word.hex8.lower ≠ opcode.mnemonic := by
  intro spelled
  have length := congrArg List.length spelled
  rw [Text.lower, List.length_map, Word.length_hex8] at length
  have short := length_mnemonic_le opcode
  omega

theorem reads_hex8_iff {word : Word} {content : Content} :
    Reads .instructions (tokens word.hex8) content ↔
      content = .constant word := by
  rw [tokens_hex8]
  constructor
  · intro reads
    cases reads with
    | halt spelled => exact absurd spelled (lower_hex8_ne_mnemonic word .halt)
    | @lone _ other foreign literal =>
        have same := (constant_eq_ok_iff_literal.mpr literal).symm.trans
          (constant_hex8 word)
        rw [Except.ok.inj same]
  · rintro rfl
    exact .lone (lower_hex8_ne_mnemonic word) (literal_hex8 word)

end Assembly

namespace Program

open Assembly

theorem numberedLines_hexText (program : Program) :
    Text.numberedLines program.hexText =
      (program.words.zipIdx 1).map fun (word, line) => (word.hex8, line) := by
  have rows : program.hexText =
      (program.words.map Word.hex8).flatMap fun row => row ++ ['\n'] := by
    rw [hexText, List.flatMap_map]
  rw [Text.numberedLines, rows, Text.lines_flatMap_newline, List.zipIdx_map]
  · rfl
  · intro row member
    obtain ⟨word, _, rfl⟩ := List.mem_map.mp member
    exact ⟨(bare_hex8 word).not_mem rfl, (bare_hex8 word).not_mem rfl⟩

private theorem imageTokens_hexText (program : Program) :
    imageTokens program.hexText =
      (program.words.zipIdx 1).map fun (word, line) => (word.hex8, line) := by
  rw [imageTokens, numberedLines_hexText, List.flatMap_map,
    List.map_eq_flatMap]
  congr 1
  funext entry
  obtain ⟨word, line⟩ := entry
  have sole : word.hex8.words isBlank = [word.hex8] :=
    Text.words_of_forall_not (bare_hex8 word).present (bare_hex8 word).solid
  simp only [sole, List.map_cons, List.map_nil]

theorem after_hex8 (word : Word) :
    Region.after .instructions [word.hex8] = .instructions := by
  have noHalt : ¬ endsInstructions [word.hex8] = true := by
    rw [endsInstructions, isHalt_iff]
    exact lower_hex8_ne_mnemonic word .halt
  have noLoad : ¬ awaitsConstant [word.hex8] = true := by
    rw [awaitsConstant, Text.sameLetters_iff]
    exact lower_hex8_ne_mnemonic word .loadc
  rw [Region.after, if_neg noHalt, if_neg noLoad]

theorem statements_hexText (program : Program) :
    statements program.hexText =
      (program.words.zipIdx 1).map fun (word, line) =>
        ⟨line, .instructions, [word.hex8]⟩ := by
  rw [statements, numberedLines_hexText]
  generalize 1 = start
  induction program.words generalizing start with
  | nil => rfl
  | cons word rest induction =>
      have present : tokens word.hex8 ≠ [] := by simp [tokens_hex8]
      rw [List.zipIdx_cons, List.map_cons, List.map_cons,
        statementsFrom_cons .instructions start _ present, tokens_hex8,
        after_hex8, induction (start + 1)]

theorem ofHexImage_hexText (program : Program) :
    ofHexImage program.hexText = .ok (ofWords program.words) := by
  rw [ofHexImage, imageTokens_hexText, mapM_zipIdx_eq_ok]
  · rfl
  · intro entry
    rw [imageWord, constant_hex8]
    rfl

theorem assemble_hexText (program : Program) :
    assemble program.hexText =
      .ok ⟨program.words, some (List.range' 1 program.words.length)⟩ := by
  rw [assemble_eq_ok_iff, statements_hexText]
  constructor
  · apply mapM_zipIdx_eq_ok
    intro entry
    obtain ⟨word, line⟩ := entry
    have prescribed : Prescribes .instructions [word.hex8] word := by
      rw [← tokens_hex8]
      exact ⟨.constant word, reads_hex8_iff.mpr rfl, rfl⟩
    exact Statement.locatedWord_eq_ok_iff.mpr prescribed
  · rw [List.map_map, ← List.zipIdx_map_snd]
    rfl

theorem addressOfLine_eq_some_iff {program : Program}
    (distinct : ∀ lines, program.lines = some lines → lines.Nodup)
    {line address : Nat} :
    program.addressOfLine line = some address ↔
      program.lineOfAddress address = some line := by
  rw [addressOfLine, lineOfAddress]
  cases recorded : program.lines with
  | none => simp
  | some lines =>
      have nodup := distinct lines recorded
      rw [Option.bind_some, Option.bind_some, List.idxOf?_eq_some_iff,
        List.getElem?_eq_some_iff]
      constructor
      · intro found
        obtain ⟨inside, same, _⟩ := found
        exact ⟨inside, same⟩
      · intro found
        obtain ⟨inside, same⟩ := found
        refine ⟨inside, same, ?_⟩
        intro earlier before repeated
        have equal := (nodup.getElem_inj_iff).mp (repeated.trans same.symm)
        omega

/-- The text of any words reads back as the same words, as an image and as
assembly. The second reading has one line for each address, and every one of its
lines means its constant and nothing else. -/
theorem hex_text_reads_back_both_ways (program : Program) :
    ofHexImage program.hexText = .ok (ofWords program.words) ∧
    (∃ assembled, assemble program.hexText = .ok assembled ∧
      assembled.words = program.words ∧
      ∀ address line,
        (assembled.lineOfAddress address = some line ↔
          address < program.words.length ∧ line = address + 1) ∧
        (assembled.addressOfLine line = some address ↔
          address < program.words.length ∧ line = address + 1)) ∧
    (∀ statement ∈ statements program.hexText,
      statement.region = .instructions ∧
        ∃ word ∈ program.words, statement.tokens = tokens word.hex8) ∧
    ∀ word content, Reads .instructions (tokens word.hex8) content ↔
      content = .constant word := by
  refine ⟨ofHexImage_hexText program,
    ⟨_, assemble_hexText program, rfl, ?_⟩, ?_, ?_⟩
  · intro address line
    have shown : lineOfAddress
        ⟨program.words, some (List.range' 1 program.words.length)⟩ address =
          some line ↔ address < program.words.length ∧ line = address + 1 := by
      rw [lineOfAddress, Option.bind_some, List.getElem?_eq_some_iff]
      simp only [List.length_range', List.getElem_range', exists_prop]
      omega
    refine ⟨shown, ?_⟩
    rw [addressOfLine_eq_some_iff, shown]
    intro lines same
    cases same
    exact List.nodup_range'
  · intro statement member
    rw [statements_hexText] at member
    obtain ⟨⟨word, line⟩, numbered, rfl⟩ := List.mem_map.mp member
    exact ⟨rfl, word, List.fst_mem_of_mem_zipIdx numbered,
      (tokens_hex8 word).symm⟩
  · intro word content
    exact reads_hex8_iff

end Program

end WordMachine
