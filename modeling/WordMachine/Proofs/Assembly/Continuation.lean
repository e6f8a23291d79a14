import WordMachine.Proofs.Assembly.Grammar
import WordMachine.Proofs.Text.Lines

namespace WordMachine

/-! Text that follows assembled text. Only the region it starts in and the number
of lines above it come from there. -/

theorem getElem?_append_eq_some_iff {α : Type} {front back : List α} {index : Nat}
    {item : α} :
    (front ++ back)[index]? = some item ↔
      front[index]? = some item ∨
        ∃ index', back[index']? = some item ∧ index = front.length + index' := by
  constructor
  · intro found
    by_cases early : index < front.length
    · rw [List.getElem?_append_left early] at found
      exact .inl found
    · have late := Nat.le_of_not_lt early
      rw [List.getElem?_append_right late] at found
      exact .inr ⟨_, found, (Nat.add_sub_cancel' late).symm⟩
  · rintro (found | ⟨index', found, rfl⟩)
    · rwa [List.getElem?_append_left (List.getElem?_eq_some_iff.mp found).1]
    · rwa [List.getElem?_append_right (Nat.le_add_right _ _), Nat.add_sub_cancel_left]

namespace SourceError

def below (count : Nat) (error : SourceError) : SourceError :=
  ⟨error.line + count, error.cause⟩

end SourceError

namespace Assembly

private def nextRegion (text : Text) : Region :=
  regionAt text (tokenLines text).length

def Statement.below (count : Nat) (statement : Statement) : Statement :=
  ⟨statement.line + count, statement.region, statement.tokens⟩

/-- A bare `halt` among the instructions of a text, so that data follow. -/
def EndsInData (text : Text) : Prop :=
  ∃ index found number, (tokenLines text)[index]? = some (found, number) ∧
    regionAt text index = .instructions ∧
    found.map Text.lower = [Opcode.halt.mnemonic]

/-- A `loadc` among the instructions on the last line with tokens, so that its
constant follows. -/
def LacksConstant (text : Text) : Prop :=
  ∃ index found number, (tokenLines text)[index]? = some (found, number) ∧
    index + 1 = (tokenLines text).length ∧
    regionAt text index = .instructions ∧
    (found.map Text.lower).head? = some Opcode.loadc.mnemonic

private theorem exists_tokenLines {text : Text} {index : Nat}
    (within : index < (tokenLines text).length) :
    ∃ found number, (tokenLines text)[index]? = some (found, number) ∧
      ((tokenLines text).map Prod.fst).getD index [] = found := by
  obtain ⟨⟨found, number⟩, line⟩ : ∃ entry, (tokenLines text)[index]? = some entry :=
    ⟨_, List.getElem?_eq_getElem within⟩
  exact ⟨found, number, line, found_of_tokenLines line⟩

private theorem nextRegion_eq_data_iff {text : Text} :
    nextRegion text = .data ↔ EndsInData text := by
  rw [nextRegion, regionAt, position_eq_data_iff]
  constructor
  · rintro ⟨index, within, instructions, halts⟩
    obtain ⟨found, number, line, same⟩ := exists_tokenLines within
    rw [same] at halts
    exact ⟨index, found, number, line, instructions, halts⟩
  · rintro ⟨index, found, number, line, instructions, halts⟩
    rw [← found_of_tokenLines line] at halts
    exact ⟨index, (List.getElem?_eq_some_iff.mp line).1, instructions, halts⟩

private theorem lacksConstant_of_nextRegion {text : Text}
    (awaits : nextRegion text = .constant) : LacksConstant text := by
  obtain ⟨_, index, directly, instructions, loads⟩ := position_eq_constant_iff.mp awaits
  have within : index < (tokenLines text).length := by omega
  obtain ⟨found, number, line, same⟩ := exists_tokenLines within
  rw [same] at loads
  exact ⟨index, found, number, line, directly, instructions, loads⟩

private theorem nextRegion_eq_foldl (text : Text) :
    nextRegion text =
      ((tokenLines text).map Prod.fst).foldl Region.after .instructions := by
  have whole : ((tokenLines text).map Prod.fst).length = (tokenLines text).length :=
    List.length_map ..
  rw [nextRegion, regionAt, position_eq_foldl (Nat.le_of_eq whole.symm), ← whole,
    List.take_length]

theorem statementsFrom_append (region : Region) (front back : List (Text × Nat)) :
    statementsFrom region (front ++ back) =
      statementsFrom region front ++
        statementsFrom
          (((tokenLinesOf front).map Prod.fst).foldl Region.after region) back := by
  induction front generalizing region with
  | nil => rfl
  | cons first rest induction =>
      obtain ⟨line, number⟩ := first
      rw [List.cons_append, tokenLinesOf_cons]
      by_cases blank : tokens line = []
      · rw [statementsFrom_blank region number _ blank,
          statementsFrom_blank region number _ blank, if_pos blank, induction]
      · rw [statementsFrom_cons region number _ blank,
          statementsFrom_cons region number _ blank, if_neg blank, induction]
        rfl

private theorem statementsFrom_zipIdx_add (region : Region) (lines : List Text)
    (start count : Nat) :
    statementsFrom region (lines.zipIdx (start + count)) =
      (statementsFrom region (lines.zipIdx start)).map (Statement.below count) := by
  induction lines generalizing region start with
  | nil => rfl
  | cons line rest induction =>
      rw [List.zipIdx_cons, List.zipIdx_cons, Nat.add_right_comm]
      by_cases blank : tokens line = []
      · rw [statementsFrom_blank region _ _ blank, statementsFrom_blank region _ _ blank,
          induction]
      · rw [statementsFrom_cons region _ _ blank, statementsFrom_cons region _ _ blank,
          induction]
        rfl

private theorem statements_of_lines_eq_append {first whole : Text} {more : List Text}
    (lines : Text.lines whole = Text.lines first ++ more) :
    statements whole =
      statements first ++ (statementsFrom (nextRegion first) (more.zipIdx 1)).map
        (Statement.below (Text.lines first).length) := by
  rw [statements, Text.numberedLines, lines, List.zipIdx_append, statementsFrom_append,
    statementsFrom_zipIdx_add, nextRegion_eq_foldl]
  rfl

private theorem locatedWord_below (count : Nat) (statement : Statement) :
    (statement.below count).locatedWord =
      statement.locatedWord.mapError (SourceError.below count) := by
  obtain ⟨number, region, found⟩ := statement
  have same : Statement.word ⟨number + count, region, found⟩ =
      Statement.word ⟨number, region, found⟩ := rfl
  simp only [Statement.below, Statement.locatedWord, same]
  cases Statement.word ⟨number, region, found⟩ with
  | error cause => rfl
  | ok word => rfl

private theorem mapM_locatedWord_below (count : Nat) (statements : List Statement) :
    (statements.map (Statement.below count)).mapM Statement.locatedWord =
      (statements.mapM Statement.locatedWord).mapError (SourceError.below count) :=
  mapM_map_mapError (locatedWord_below count) statements

end Assembly

namespace Program

open Assembly

/-- Assembles lines of data, each with one constant. A bare `halt` is a zero. -/
def assembleData (text : Text) : Except SourceError Program :=
  match (tokenLines text).mapM fun entry =>
      (dataWord entry.1).mapError fun cause => (⟨entry.2, cause⟩ : SourceError) with
  | .ok words => .ok ⟨words, some ((tokenLines text).map Prod.snd)⟩
  | .error error => .error error

private def assembleFrom (region : Region) (text : Text) : Except SourceError Program :=
  let statements := statementsFrom region (Text.numberedLines text)
  match statements.mapM Statement.locatedWord with
  | .ok words => .ok ⟨words, some (statements.map Statement.line)⟩
  | .error error => .error error

private theorem assembleFrom_instructions (text : Text) :
    assembleFrom .instructions text = assemble text := rfl

private theorem statementsFrom_data (lines : List (Text × Nat)) :
    statementsFrom .data lines =
      (tokenLinesOf lines).map fun entry => ⟨entry.2, .data, entry.1⟩ := by
  induction lines with
  | nil => rfl
  | cons first rest induction =>
      obtain ⟨line, number⟩ := first
      rw [tokenLinesOf_cons]
      by_cases blank : tokens line = []
      · rw [statementsFrom_blank .data number rest blank, if_pos blank, induction]
      · rw [statementsFrom_cons .data number rest blank, if_neg blank,
          Region.after_data, induction]
        rfl

private theorem assembleFrom_data (text : Text) :
    assembleFrom .data text = assembleData text := by
  rw [assembleFrom, statementsFrom_data, List.mapM_map, List.map_map]
  rfl

structure Joins (front : Program) (count : Nat)
    (rest whole : Except SourceError Program) : Prop where
  failure : ∀ error, whole = .error error ↔
    ∃ alone, rest = .error alone ∧ error = alone.below count
  success : ∀ back, rest = .ok back → ∃ joined, whole = .ok joined ∧
    joined.words = front.words ++ back.words ∧ joined.lines.isSome = true ∧
    ∀ address line, joined.lineOfAddress address = some line ↔
      front.lineOfAddress address = some line ∨
        ∃ address' line', back.lineOfAddress address' = some line' ∧
          address = front.words.length + address' ∧ line = line' + count

section Joined

variable {region : Region} {text first : Text} {program : Program}

private theorem assembleFrom_eq_error_iff {error : SourceError} :
    assembleFrom region text = .error error ↔
      (statementsFrom region (Text.numberedLines text)).mapM Statement.locatedWord =
        .error error := by
  rw [assembleFrom]
  cases (statementsFrom region (Text.numberedLines text)).mapM
      Statement.locatedWord with
  | error cause => simp
  | ok words => simp

private theorem traversed_of_assembleFrom
    (assembled : assembleFrom region text = .ok program) :
    (statementsFrom region (Text.numberedLines text)).mapM Statement.locatedWord =
        .ok program.words ∧
      program.lines =
        some ((statementsFrom region (Text.numberedLines text)).map
          Statement.line) := by
  rw [assembleFrom] at assembled
  split at assembled
  next words traversed =>
      cases assembled
      exact ⟨traversed, rfl⟩
  next => cases assembled

/-- A text behind closed lines is assembled as if it stood alone, in the region that
the lines leave and with its own lines numbered after them. -/
private theorem joins_assembleFrom (closed : Closed '\n' first)
    (assembled : assemble first = .ok program) (second : Text) :
    Joins program (Text.lines first).length
      (assembleFrom (nextRegion first) second) (assemble (first ++ second)) := by
  obtain ⟨traversed, recorded⟩ := assemble_eq_ok_iff.mp assembled
  let rest := statementsFrom (nextRegion first) (Text.numberedLines second)
  have statements : statements (first ++ second) = statements first ++
      rest.map (Statement.below (Text.lines first).length) :=
    statements_of_lines_eq_append (splitLines_append closed second)
  have whole : (Assembly.statements (first ++ second)).mapM Statement.locatedWord =
      ((rest.mapM Statement.locatedWord).mapError
        (SourceError.below (Text.lines first).length)).map (program.words ++ ·) := by
    rw [statements, mapM_append_of_ok traversed, mapM_locatedWord_below]
  constructor
  case failure =>
    intro error
    rw [assemble_eq_error_iff, whole]
    simp only [assembleFrom_eq_error_iff]
    change _ ↔ ∃ alone, rest.mapM Statement.locatedWord = .error alone ∧ _
    cases rest.mapM Statement.locatedWord with
    | error cause => simp [Except.mapError, Except.map, eq_comm]
    | ok words => simp [Except.mapError, Except.map]
  case success =>
    intro back made
    obtain ⟨traversed', recorded'⟩ := traversed_of_assembleFrom made
    have words : (Assembly.statements (first ++ second)).mapM Statement.locatedWord =
        .ok (program.words ++ back.words) := by
      rw [whole, traversed']
      rfl
    refine ⟨⟨program.words ++ back.words, _⟩, assemble_eq_ok_iff.mpr ⟨words, rfl⟩, rfl,
      rfl, ?_⟩
    intro address line
    have length : program.words.length = (Assembly.statements first).length :=
      length_of_mapM_eq_ok traversed
    simp only [lineOfAddress, recorded, recorded', Option.bind_some, statements,
      List.map_append, getElem?_append_eq_some_iff, List.length_map, length,
      List.getElem?_map, Option.map_eq_some_iff, exists_exists_and_eq_and]
    refine or_congr_right (exists_congr fun address' => ?_)
    constructor
    · rintro ⟨⟨statement, found, same⟩, place⟩
      exact ⟨statement, found, place, same.symm⟩
    · rintro ⟨statement, found, place, same⟩
      exact ⟨⟨statement, found, same.symm⟩, place⟩

end Joined

/-- Assembling is compositional. Behind closed lines that leave the instructions
open, a text has the words it has alone, or fails as it does alone, and its lines
are counted on. Behind a bare `halt` the same holds of its lines as data, just as
behind a text of that `halt` alone. -/
theorem assembly_is_compositional {first : Text} {program : Program}
    (closed : Closed '\n' first) (assembled : assemble first = .ok program)
    (second : Text) :
    (¬ EndsInData first → ¬ LacksConstant first →
      Joins program (Text.lines first).length (assemble second)
        (assemble (first ++ second))) ∧
    (EndsInData first →
      Joins program (Text.lines first).length (assembleData second)
        (assemble (first ++ second))) ∧
    Joins ⟨[0], some [1]⟩ 1 (assembleData second)
      (assemble (['h', 'a', 'l', 't', '\n'] ++ second)) := by
  have joins := joins_assembleFrom closed assembled second
  refine ⟨?_, ?_, ?_⟩
  · intro noData noConstant
    have region : nextRegion first = .instructions :=
      Region.eq_instructions (nextRegion_eq_data_iff.not.mpr noData)
        fun awaits => noConstant (lacksConstant_of_nextRegion awaits)
    rwa [region, assembleFrom_instructions] at joins
  · intro halted
    rwa [nextRegion_eq_data_iff.mpr halted, assembleFrom_data] at joins
  · have halt : Closed '\n' ['h', 'a', 'l', 't', '\n'] := .inr rfl
    have region : nextRegion ['h', 'a', 'l', 't', '\n'] = .data := by
      rw [nextRegion_eq_foldl]
      rfl
    have joins' := joins_assembleFrom halt rfl second
    rwa [region, assembleFrom_data] at joins'

/-- An instruction behind a bare `halt` is a constant that is none. Its line is
counted from the top, with the blank line before it. -/
theorem assembly_is_compositional_of_halted :
    let first : Text := ['l', 'o', 'a', 'd', 'c', ' ', '1', '\n', 'a', 'd', 'd', '\n',
      'H', 'a', 'l', 't', '\n']
    let second : Text := ['\n', 'a', 'd', 'd', ' ', '0', ' ', '1']
    let cause : AssemblyError := .invalidConstant ['a', 'd', 'd', ' ', '0', ' ', '1']
    Closed '\n' first ∧
      assemble first = .ok ⟨[0x210, 0xADD, 0], some [1, 2, 3]⟩ ∧ EndsInData first ∧
      assembleData second = .error ⟨2, cause⟩ ∧
      assemble (first ++ second) = .error ⟨5, cause⟩ := by
  intro first second cause
  have closed : Closed '\n' first := .inr rfl
  have assembled : assemble first = .ok ⟨[0x210, 0xADD, 0], some [1, 2, 3]⟩ := rfl
  have halted : EndsInData first := by
    rw [← nextRegion_eq_data_iff, nextRegion_eq_foldl]
    rfl
  have failed : assembleData second = .error ⟨2, cause⟩ := rfl
  have joins := (assembly_is_compositional closed assembled second).2.1 halted
  exact ⟨closed, assembled, halted, failed,
    (joins.failure ⟨5, cause⟩).mpr ⟨⟨2, cause⟩, failed, rfl⟩⟩

end Program

end WordMachine
