import Mathlib.Logic.Relation
import WordMachine.Proofs.Assembly.Grammar
import WordMachine.Proofs.Assembly.Layout

namespace WordMachine.Assembly

/-! What a text assembles to depends on the tokens of its lines only, and not on
how they are laid out or on the case of their letters. -/

section Lines

variable {text : Text} {lines : List Text}

/-- The lines with tokens, up to the case of their letters. -/
def spelling (text : Text) : List (List Text) :=
  (tokenLines text).map fun entry => entry.1.map Text.lower

theorem spelling_of_lined (lined : Lined '\n' '\r' text lines) :
    spelling text =
      ((lines.map tokens).filter fun found => !found.isEmpty).map
        (List.map Text.lower) := by
  have split : Text.lines text = lines := lined.splitLines_eq (by decide)
  have numbered : (Text.numberedLines text).map Prod.fst = lines := by
    rw [Text.numberedLines, split, List.zipIdx_map_fst]
  rw [← numbered, List.map_map, List.filter_map, spelling, tokenLines, tokenLinesOf,
    List.filter_map]
  simp only [List.map_map]
  rfl

private theorem spelling_lower (text : Text) : spelling text.lower = spelling text := by
  have lined : Lined '\n' '\r' text (Text.lines text) := lined_splitLines text
  have folded : ((Text.lines text).map Text.lower).map tokens =
      ((Text.lines text).map tokens).map (List.map Text.lower) := by
    rw [List.map_map, List.map_map]
    exact List.map_congr_left fun line _ => tokens_lower line
  have twice : List.map Text.lower ∘ List.map Text.lower = List.map Text.lower := by
    funext found
    simp
  rw [spelling_of_lined (lined_lower lined), spelling_of_lined lined, folded,
    List.filter_map, List.map_map, twice]
  congr 2
  funext found
  exact congrArg Bool.not List.isEmpty_map

/-- One change to the layout of a text or to the case of its letters. -/
inductive Relaid : Text → Text → Prop
  | line {text text' line line' : Text} {above below found : List Text}
      (lined : Lined '\n' '\r' text (above ++ line :: below))
      (lined' : Lined '\n' '\r' text' (above ++ line' :: below))
      (laid : Laid found line) (laid' : Laid found line') : Relaid text text'
  | blank {text text' line : Text} {above below : List Text}
      (lined : Lined '\n' '\r' text (above ++ below))
      (lined' : Lined '\n' '\r' text' (above ++ line :: below))
      (blank : Laid [] line) : Relaid text text'
  | letters {text text' : Text} (same : text.lower = text'.lower) :
      Relaid text text'
  | returns {text : Text} (bare : '\r' ∉ text) : Relaid text (withReturns text)

theorem Relaid.spelling_eq {text text' : Text} (relaid : Relaid text text') :
    spelling text = spelling text' := by
  cases relaid with
  | line lined lined' laid laid' =>
      rw [spelling_of_lined lined, spelling_of_lined lined', List.map_append,
        List.map_append, List.map_cons, List.map_cons, laid.tokens_eq, laid'.tokens_eq]
  | blank lined lined' blank =>
      rw [spelling_of_lined lined, spelling_of_lined lined', List.map_append,
        List.map_append, List.map_cons, blank.tokens_eq, List.filter_append,
        List.filter_append, List.filter_cons_of_neg (by decide)]
  | letters same => rw [← spelling_lower text, same, spelling_lower]
  | returns bare =>
      have lined : Lined '\n' '\r' text (Text.lines text) := lined_splitLines text
      rw [spelling_of_lined lined, spelling_of_lined (lined_withReturns lined bare)]

private theorem spelling_eq_of_eqvGen {first second : Text}
    (relaid : Relation.EqvGen Relaid first second) :
    spelling first = spelling second := by
  induction relaid with
  | rel first second relaid => exact relaid.spelling_eq
  | refl text => rfl
  | symm first second _ induction => exact induction.symm
  | trans first middle last _ _ induction induction' => exact induction.trans induction'

end Lines

section Outcome

variable {first second : Text}

private theorem position_lower (lines : List (List Text)) (index : Nat) :
    position (lines.map (List.map Text.lower)) index = position lines index := by
  induction index with
  | zero => rw [position_zero, position_zero]
  | succ index induction =>
      have line : (lines.map (List.map Text.lower)).getD index [] =
          (lines.getD index []).map Text.lower := by
        rw [List.getD_eq_getElem?_getD, List.getD_eq_getElem?_getD, List.getElem?_map]
        cases lines[index]? with
        | none => rfl
        | some found => rfl
      rw [position_succ, position_succ, induction, line, after_lower]

private theorem regionAt_eq_position_spelling (text : Text) (index : Nat) :
    regionAt text index = position (spelling text) index := by
  rw [regionAt, ← position_lower, spelling, List.map_map]
  rfl

def Statement.spelling (statement : Statement) : Region × List Text :=
  (statement.region, statement.tokens.map Text.lower)

private theorem spelling_of_statements (text : Text) :
    (statements text).map Statement.spelling =
      (spelling text).zipIdx.map fun entry =>
        (position (spelling text) entry.2, entry.1) := by
  apply List.ext_getElem?
  intro index
  have line : (spelling text)[index]? =
      (tokenLines text)[index]?.map fun entry => entry.1.map Text.lower :=
    List.getElem?_map
  rw [List.getElem?_map, statements_getElem?, List.getElem?_map, List.getElem?_zipIdx,
    regionAt_eq_position_spelling, line]
  cases (tokenLines text)[index]? with
  | none => rfl
  | some entry => simp [Statement.spelling]

/-- Statements with one spelling have one word, or fail for one reason. -/
theorem word_of_spelling_eq {statement statement' : Statement}
    (same : statement.spelling = statement'.spelling) :
    statement.word.mapError AssemblyError.lower =
      statement'.word.mapError AssemblyError.lower := by
  obtain ⟨number, region, found⟩ := statement
  obtain ⟨number', region', found'⟩ := statement'
  obtain ⟨rfl, tokens⟩ := Prod.mk.inj same
  have folded : Statement.word ⟨number, region, found.map Text.lower⟩ =
      Statement.word ⟨number', region, found'.map Text.lower⟩ :=
    congrArg (fun tokens => Statement.word ⟨0, region, tokens⟩) tokens
  rwa [word_lower, word_lower] at folded

theorem locatedWord_eq_ok_of_spelling_eq {statement statement' : Statement}
    (same : statement.spelling = statement'.spelling) (word : Word) :
    statement.locatedWord = .ok word ↔ statement'.locatedWord = .ok word := by
  have alike := word_of_spelling_eq same
  simp only [Statement.locatedWord, mapError_eq_ok_iff]
  rw [← mapError_eq_ok_iff, alike, mapError_eq_ok_iff]

theorem locatedWord_eq_error_of_spelling_eq {statement statement' : Statement}
    {error : SourceError} (same : statement.spelling = statement'.spelling)
    (failed : statement.locatedWord = .error error) :
    error.line = statement.line ∧
      ∃ error' : SourceError, statement'.locatedWord = .error error' ∧
        error'.line = statement'.line ∧ error'.cause.lower = error.cause.lower := by
  have alike := word_of_spelling_eq same
  obtain ⟨failed, line⟩ := Statement.locatedWord_eq_error_iff.mp failed
  rw [failed] at alike
  obtain ⟨cause, failed', lowered⟩ := mapError_eq_error_iff.mp alike.symm
  exact ⟨line, ⟨statement'.line, cause⟩,
    Statement.locatedWord_eq_error_iff.mpr ⟨failed', rfl⟩, rfl, lowered⟩

def blanksBefore (text : Text) (number : Nat) : Nat :=
  ((Text.lines text).take (number - 1)).countP fun line => (tokens line).isEmpty

def NumberedAt (text : Text) (index number : Nat) : Prop :=
  (tokenLines text)[index]?.map Prod.snd = some number ∧
    number = index + 1 + blanksBefore text number

private theorem number_of_tokenLinesOf {lines : List Text} {start index number : Nat}
    {found : List Text}
    (line : (tokenLinesOf (lines.zipIdx start))[index]? = some (found, number)) :
    ∃ place, number = start + place ∧
      place = index + (lines.take place).countP fun line => (tokens line).isEmpty := by
  induction lines generalizing start index with
  | nil => cases line
  | cons first rest induction =>
      rw [List.zipIdx_cons, tokenLinesOf_cons] at line
      by_cases blank : tokens first = []
      · rw [if_pos blank] at line
        obtain ⟨place, rfl, counted⟩ := induction line
        refine ⟨place + 1, by omega, ?_⟩
        rw [List.take_succ_cons, List.countP_cons, if_pos (List.isEmpty_iff.mpr blank)]
        omega
      · rw [if_neg blank] at line
        cases index with
        | zero =>
            cases line
            exact ⟨0, rfl, rfl⟩
        | succ index =>
            rw [List.getElem?_cons_succ] at line
            obtain ⟨place, rfl, counted⟩ := induction line
            refine ⟨place + 1, by omega, ?_⟩
            rw [List.take_succ_cons, List.countP_cons,
              if_neg (List.isEmpty_iff.not.mpr blank)]
            omega

private theorem numberedAt_of_statements {text : Text} {index : Nat}
    {statement : Statement}
    (stated : (statements text)[index]? = some statement) :
    NumberedAt text index statement.line := by
  obtain ⟨line, _⟩ := statements_getElem?_eq_some_iff.mp stated
  refine ⟨by rw [line]; rfl, ?_⟩
  obtain ⟨place, number, counted⟩ := number_of_tokenLinesOf line
  have before : statement.line - 1 = place := by omega
  rw [blanksBefore, before]
  omega

/-- Two texts that assemble to the same words, or fail at the same line with
tokens and for the same reason. -/
structure SameOutcome (first second : Text) : Prop where
  words : ∀ words, (∃ lines, Program.assemble first = .ok ⟨words, lines⟩) ↔
    ∃ lines, Program.assemble second = .ok ⟨words, lines⟩
  failure : ∀ error, Program.assemble first = .error error →
    ∃ error' index, Program.assemble second = .error error' ∧
      error'.cause.lower = error.cause.lower ∧
      NumberedAt first index error.line ∧ NumberedAt second index error'.line

theorem exists_assemble_words_iff {text : Text} {words : List Word} :
    (∃ lines, Program.assemble text = .ok ⟨words, lines⟩) ↔
      (statements text).mapM Statement.locatedWord = .ok words := by
  constructor
  · rintro ⟨lines, assembled⟩
    exact (Program.assemble_eq_ok_iff.mp assembled).1
  · intro traversed
    exact ⟨_, Program.assemble_eq_ok_iff.mpr ⟨traversed, rfl⟩⟩

theorem sameOutcome_of_spelling_eq (same : spelling first = spelling second) :
    SameOutcome first second := by
  have alike : (statements first).map Statement.spelling =
      (statements second).map Statement.spelling := by
    rw [spelling_of_statements, spelling_of_statements, same]
  constructor
  case words =>
    intro words
    rw [exists_assemble_words_iff, exists_assemble_words_iff]
    rw [← List.forall₂_eq_eq_eq, List.forall₂_map_left_iff,
      List.forall₂_map_right_iff] at alike
    exact mapM_eq_ok_congr (alike.imp fun _ _ => locatedWord_eq_ok_of_spelling_eq)
  case failure =>
    intro error failed
    obtain ⟨index, statement, stated, wrong, before⟩ :=
      mapM_eq_error_iff.mp (Program.assemble_eq_error_iff.mp failed)
    have there := congrArg (fun spelled => spelled[index]?) alike
    simp only [List.getElem?_map, stated, Option.map_some] at there
    obtain ⟨statement', stated', spelled⟩ := Option.map_eq_some_iff.mp there.symm
    obtain ⟨line, error', wrong', line', cause⟩ :=
      locatedWord_eq_error_of_spelling_eq spelled.symm wrong
    have before' : ∀ earlier ∈ (statements second).take index, ∃ word,
        earlier.locatedWord = .ok word := by
      intro earlier member
      have listed := List.mem_map_of_mem (f := Statement.spelling) member
      rw [List.map_take, ← alike, ← List.map_take] at listed
      obtain ⟨twin, member', spelled⟩ := List.mem_map.mp listed
      obtain ⟨word, computed⟩ := before twin member'
      exact ⟨word, (locatedWord_eq_ok_of_spelling_eq spelled word).mp computed⟩
    have failed' := Program.assemble_eq_error_iff.mpr
      (mapM_eq_error_iff.mpr ⟨index, statement', stated', wrong', before'⟩)
    refine ⟨error', index, failed', cause, ?_, ?_⟩
    · rw [line]
      exact numberedAt_of_statements stated
    · rw [line']
      exact numberedAt_of_statements stated'

/-- The words of a text depend on the tokens of its lines up to the case of their
letters, and so does the first failure, which is the same in kind and at the same
line with tokens. Neither gaps nor comments nor lines without tokens play a part,
nor the case of letters, nor carriage returns before the newlines. -/
theorem layout_and_letters_keep_words (first second : Text) :
    (spelling first = spelling second → SameOutcome first second) ∧
      (Relation.EqvGen Relaid first second → SameOutcome first second) :=
  ⟨sameOutcome_of_spelling_eq, fun relaid =>
    sameOutcome_of_spelling_eq (spelling_eq_of_eqvGen relaid)⟩

/-- A constant that a blank line and a comment part from its instruction. -/
theorem layout_and_letters_keep_words_of_parted_constant :
    let plain : Text := ['l', 'o', 'a', 'd', 'c', ' ', '1', '\n', 'a', '\n']
    let parted : Text := ['\t', 'L', 'o', 'a', 'd', 'C', '\t', '1', ' ', '#', '2', '\n',
      '\r', '\n', '#', '\n', ' ', ' ', 'A']
    spelling plain = spelling parted ∧ SameOutcome plain parted := by
  intro plain parted
  have same : spelling plain = spelling parted := by decide
  exact ⟨same, (layout_and_letters_keep_words plain parted).1 same⟩

end Outcome

end WordMachine.Assembly
