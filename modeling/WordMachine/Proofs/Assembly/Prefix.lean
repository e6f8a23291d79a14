import WordMachine.Proofs.Assembly.Continuation
import WordMachine.Proofs.Assembly.Layout
import WordMachine.Proofs.Assembly.Refusal
import WordMachine.Proofs.Assembly.Scanner

namespace WordMachine

/-! Assembling stops at the first line that is illegal. The lines above it make a
program, and the lines below it play no part. -/

namespace Assembly

private def wordsOfLines (lines : List Text) : Except SourceError (List Word) :=
  (statementsFrom .instructions (lines.zipIdx 1)).mapM Statement.locatedWord

section Lines

variable {region : Region} {lines first more : List Text} {statement : Statement}
  {error : SourceError} {words : List Word}

theorem line_of_statementsFrom {start : Nat}
    (member : statement ∈ statementsFrom region (lines.zipIdx start)) :
    start ≤ statement.line ∧ statement.line < start + lines.length := by
  induction lines generalizing region start with
  | nil => cases member
  | cons line rest induction =>
      have later (found : ∃ region, statement ∈
          statementsFrom region (rest.zipIdx (start + 1))) :
          start ≤ statement.line ∧ statement.line < start + (line :: rest).length := by
        obtain ⟨region, member⟩ := found
        have bounds := induction member
        rw [List.length_cons]
        omega
      rw [List.zipIdx_cons] at member
      by_cases blank : tokens line = []
      · rw [statementsFrom_blank region start _ blank] at member
        exact later ⟨_, member⟩
      · rw [statementsFrom_cons region start _ blank, List.mem_cons] at member
        rcases member with rfl | member
        · exact ⟨Nat.le_refl start, Nat.lt_add_of_pos_right (Nat.succ_pos _)⟩
        · exact later ⟨_, member⟩

theorem exists_statement_of_error {statements : List Statement}
    (failed : statements.mapM Statement.locatedWord = .error error) :
    ∃ statement ∈ statements, error.line = statement.line := by
  obtain ⟨index, statement, found, wrong, _⟩ := mapM_eq_error_iff.mp failed
  exact ⟨statement, List.mem_of_getElem? found, (Statement.locatedWord_eq_error_iff.mp wrong).2⟩

theorem exists_statementsFrom_append (first more : List Text) :
    ∃ later, statementsFrom .instructions ((first ++ more).zipIdx 1) =
        statementsFrom .instructions (first.zipIdx 1) ++ later ∧
      ∀ statement ∈ later, first.length < statement.line := by
  rw [List.zipIdx_append, statementsFrom_append]
  refine ⟨_, rfl, fun statement member => ?_⟩
  have bounds := line_of_statementsFrom member
  omega

private theorem wordsOfLines_append_of_error
    (failed : wordsOfLines first = .error error)
    (more : List Text) : wordsOfLines (first ++ more) = .error error := by
  obtain ⟨later, statements, _⟩ := exists_statementsFrom_append first more
  rw [wordsOfLines, statements]
  exact mapM_append_of_error failed

private theorem wordsOfLines_append_eq_error
    (failed : wordsOfLines (first ++ more) = .error error) :
    (wordsOfLines first = .error error ∧ error.line ≤ first.length) ∨
      (∃ words, wordsOfLines first = .ok words) ∧ first.length < error.line := by
  cases above : wordsOfLines first with
  | error error' =>
      have failed' := wordsOfLines_append_of_error above more
      cases failed.symm.trans failed'
      obtain ⟨statement, member, line⟩ := exists_statement_of_error above
      have bounds := line_of_statementsFrom member
      exact .inl ⟨rfl, by omega⟩
  | ok words =>
      obtain ⟨later, statements, below⟩ := exists_statementsFrom_append first more
      rw [wordsOfLines, statements, mapM_append_of_ok above] at failed
      refine .inr ⟨⟨words, rfl⟩, ?_⟩
      cases rest : later.mapM Statement.locatedWord with
      | ok others =>
          rw [rest] at failed
          cases failed
      | error error' =>
          rw [rest] at failed
          cases failed
          obtain ⟨statement, member, line⟩ := exists_statement_of_error rest
          rw [line]
          exact below statement member

private theorem wordsOfLines_append_eq_ok
    (traversed : wordsOfLines (first ++ more) = .ok words) :
    ∃ words', wordsOfLines first = .ok words' ∧ words' <+: words := by
  obtain ⟨later, statements, _⟩ := exists_statementsFrom_append first more
  cases above : wordsOfLines first with
  | error error =>
      rw [wordsOfLines_append_of_error above] at traversed
      cases traversed
  | ok words' =>
      rw [wordsOfLines, statements, mapM_append_of_ok above] at traversed
      cases rest : later.mapM Statement.locatedWord with
      | error error =>
          rw [rest] at traversed
          cases traversed
      | ok others =>
          rw [rest] at traversed
          cases traversed
          exact ⟨words', rfl, List.prefix_append words' others⟩

end Lines

section Refusal

variable {text : Text} {index index' number number' : Nat} {found found' : List Text}
  {error : SourceError}

def IllegalAt (text : Text) (number : Nat) : Prop :=
  ∃ index found, (tokenLines text)[index]? = some (found, number) ∧
    ¬ Legal (regionAt text index) found

private theorem ne_nil_of_tokenLines
    (line : (tokenLines text)[index]? = some (found, number)) : found ≠ [] := by
  have present := List.of_mem_filter (List.mem_of_getElem? line)
  rintro rfl
  cases present

private theorem lt_of_tokenLines
    (line : (tokenLines text)[index]? = some (found, number))
    (line' : (tokenLines text)[index']? = some (found', number'))
    (above : number' < number) : index' < index := by
  obtain ⟨within, entry⟩ := List.getElem?_eq_some_iff.mp line
  obtain ⟨within', entry'⟩ := List.getElem?_eq_some_iff.mp line'
  by_contra later
  rcases Nat.lt_or_eq_of_le (Nat.le_of_not_lt later) with before | rfl
  · have order := List.pairwise_iff_getElem.mp (increasing_tokenLines text) index index'
      (by rwa [List.length_map]) (by rwa [List.length_map]) before
    rw [List.getElem_map, List.getElem_map, entry, entry'] at order
    exact Nat.lt_asymm order above
  · cases entry.symm.trans entry'
    exact Nat.lt_irrefl number above

/-- A text that does not assemble fails at its first illegal line, for the reason
that this line is refused. -/
theorem refused_of_assemble (failed : Program.assemble text = .error error) :
    (∃ index found, (tokenLines text)[index]? = some (found, error.line) ∧
      ¬ Legal (regionAt text index) found ∧
      Refused (regionAt text index) found error.cause) ∧
    ∀ earlier < error.line, ¬ IllegalAt text earlier := by
  obtain ⟨index, ⟨number, region, found⟩, stated, wrong, before⟩ :=
    mapM_eq_error_iff.mp (Program.assemble_eq_error_iff.mp failed)
  obtain ⟨line, placed⟩ := statements_getElem?_eq_some_iff.mp stated
  obtain ⟨wrong, numbered⟩ := Statement.locatedWord_eq_error_iff.mp wrong
  simp only at line placed numbered
  subst placed
  rw [← numbered] at line
  constructor
  · exact ⟨index, found, line, Statement.exists_word_eq_error_iff.mp ⟨_, wrong⟩,
      (Statement.word_eq_error_iff (ne_nil_of_tokenLines line)).mp wrong⟩
  · rintro earlier above ⟨index', found', line', illegal⟩
    have stated' : (statements text)[index']? =
        some ⟨earlier, regionAt text index', found'⟩ :=
      statements_getElem?_eq_some_iff.mpr ⟨line', rfl⟩
    have higher := lt_of_tokenLines line line' above
    obtain ⟨word, computed⟩ := before _ (List.mem_of_getElem?
      ((List.getElem?_take_of_lt higher).trans stated'))
    exact illegal (legal_iff_exists_prescribes.mpr
      ⟨word, Statement.locatedWord_eq_ok_iff.mp computed⟩)

end Refusal

end Assembly

namespace Program

open Assembly

variable {text : Text} {program : Program} {error : SourceError}

private theorem assemble_eq_error_iff_wordsOfLines :
    assemble text = .error error ↔ wordsOfLines (Text.lines text) = .error error :=
  assemble_eq_error_iff

private theorem exists_assemble_iff_wordsOfLines :
    (∃ program, assemble text = .ok program) ↔
      ∃ words, wordsOfLines (Text.lines text) = .ok words := by
  constructor
  · rintro ⟨program, assembled⟩
    exact ⟨program.words, (assemble_eq_ok_iff.mp assembled).1⟩
  · rintro ⟨words, traversed⟩
    exact ⟨⟨words, _⟩, assemble_eq_ok_iff.mpr ⟨traversed, rfl⟩⟩

/-- Where a text fails: at its first illegal line, for a reason that lies in this
line. The part of the text above it assembles, and every text with the same lines
down to it fails alike. -/
structure FailsAt (text : Text) (error : SourceError) : Prop where
  refused : ∃ index found, (tokenLines text)[index]? = some (found, error.line) ∧
    ¬ Legal (regionAt text index) found ∧
    Refused (regionAt text index) found error.cause
  first : ∀ earlier < error.line, ¬ IllegalAt text earlier
  above : ∃ front back, text = front ++ back ∧ Closed '\n' front ∧
    (Text.lines front).length + 1 = error.line ∧
    ∃ program, assemble front = .ok program
  alone : ∀ other,
    (Text.lines other).take error.line = (Text.lines text).take error.line →
      assemble other = .error error

private theorem failsAt_of_assemble (failed : assemble text = .error error) :
    FailsAt text error := by
  obtain ⟨refused, first⟩ := refused_of_assemble failed
  rw [assemble_eq_error_iff_wordsOfLines] at failed
  obtain ⟨statement, member, line⟩ := exists_statement_of_error failed
  have bounds := line_of_statementsFrom member
  refine ⟨refused, first, ?_, ?_⟩
  · have within : error.line - 1 < (Text.lines text).length := by omega
    obtain ⟨front, back, rfl, closed, count⟩ := exists_closed_above within
    have above : (Text.lines front).length + 1 = error.line := by
      rw [Text.lines, count]
      omega
    refine ⟨front, back, rfl, closed, above, exists_assemble_iff_wordsOfLines.mpr ?_⟩
    rw [Text.lines, splitLines_append closed] at failed
    rcases wordsOfLines_append_eq_error failed with ⟨_, early⟩ | ⟨traversed, _⟩
    · have late : (Text.lines front).length < error.line := by omega
      exact absurd early (Nat.not_le_of_lt late)
    · exact traversed
  · intro other same
    rw [assemble_eq_error_iff_wordsOfLines]
    rw [← List.take_append_drop error.line (Text.lines text), ← same] at failed
    rw [← List.take_append_drop error.line (Text.lines other)]
    rcases wordsOfLines_append_eq_error failed with ⟨reached, _⟩ | ⟨_, beyond⟩
    · exact wordsOfLines_append_of_error reached _
    · rw [same, List.length_take] at beyond
      omega

/-- Where a line of a text ends that assembles, the part before assembles to the
words and the lines that it has in the whole. -/
theorem exists_assemble_of_lineEnd {front back : Text}
    (assembled : assemble (front ++ back) = .ok program)
    (ends : LineEnd '\n' '\r' front back) :
    ∃ part, assemble front = .ok part ∧ part.words <+: program.words ∧
      ∀ address line, part.lineOfAddress address = some line ↔
        program.lineOfAddress address = some line ∧
          line ≤ (Text.lines front).length := by
  obtain ⟨more, lines⟩ : Text.lines front <+: Text.lines (front ++ back) :=
    ends.splitLines_prefix (by decide)
  obtain ⟨later, statements, below⟩ :=
    exists_statementsFrom_append (Text.lines front) more
  obtain ⟨traversed, recorded⟩ := assemble_eq_ok_iff.mp assembled
  have whole : wordsOfLines (Text.lines front ++ more) = .ok program.words := by
    rw [lines]
    exact traversed
  obtain ⟨words, above, initial⟩ := wordsOfLines_append_eq_ok whole
  have numbers : program.lines = some ((Assembly.statements front ++ later).map
      Statement.line) := by
    rw [recorded, Assembly.statements, Text.numberedLines, ← lines, statements]
    rfl
  refine ⟨⟨words, _⟩, assemble_eq_ok_iff.mpr ⟨above, rfl⟩, initial, ?_⟩
  intro address line
  simp only [lineOfAddress, numbers, Option.bind_some, List.map_append,
    getElem?_append_eq_some_iff]
  constructor
  · intro found
    obtain ⟨statement, member, rfl⟩ := List.mem_map.mp (List.mem_of_getElem? found)
    have bounds := line_of_statementsFrom member
    exact ⟨.inl found, by omega⟩
  · rintro ⟨found | ⟨index, found, _⟩, high⟩
    · exact found
    · obtain ⟨statement, member, rfl⟩ := List.mem_map.mp (List.mem_of_getElem? found)
      exact absurd high (Nat.not_le_of_lt (below statement member))

/-- Assembling stops at the first line that is illegal at its position. What is
wrong with the line is decided by its tokens and its region, and the lines below it
play no part. If a text assembles, so does every part of it down to the end of a
line, to the words and the lines of that part. No line fails to be split into
tokens: each is its tokens laid out, and the grammar finds them. -/
theorem assembling_stops_at_first_illegal_line (text : Text) :
    (∀ error, assemble text = .error error → FailsAt text error) ∧
    (∀ region found, found ≠ [] →
      (¬ Legal region found ↔ ∃ cause, Refused region found cause) ∧
      ∀ first second, Refused region found first → Refused region found second →
        first = second) ∧
    (∀ program front back, assemble text = .ok program → text = front ++ back →
      LineEnd '\n' '\r' front back →
        ∃ part, assemble front = .ok part ∧ part.words <+: program.words ∧
          ∀ address line, part.lineOfAddress address = some line ↔
            program.lineOfAddress address = some line ∧
              line ≤ (Text.lines front).length) ∧
    ∀ line ∈ Text.lines text, Laid (tokens line) line ∧
      ∀ library : Combinators, library.Documented →
        library.scan line = .ok (tokens line) := by
  refine ⟨fun _ => failsAt_of_assemble, ?_, ?_, fun line _ =>
    ⟨laid_tokens line, fun _ documented => documented.scan_eq line⟩⟩
  · intro region found present
    exact ⟨illegal_iff_exists_refused present, fun _ _ => Refused.unique present⟩
  · rintro program front back assembled rfl ends
    exact exists_assemble_of_lineEnd assembled ends

/-- The second line lacks an operand, and the blank line above it is counted. The
line below would be wrong as well. -/
theorem assembling_stops_at_first_illegal_line_of_missing_operand :
    let text : Text := ['\n', 'a', 'd', 'd', ' ', '0', '\n', 'x', ' ', '1']
    assemble text = .error ⟨2, .argumentCount .add 1⟩ ∧
      FailsAt text ⟨2, .argumentCount .add 1⟩ := by
  intro text
  have failed : assemble text = .error ⟨2, .argumentCount .add 1⟩ := rfl
  exact ⟨failed, (assembling_stops_at_first_illegal_line text).1 _ failed⟩

end Program

end WordMachine
