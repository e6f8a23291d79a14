import WordMachine.Program.Source
import WordMachine.Proofs.Assembly.Position

namespace WordMachine.Assembly

/-! Assembling accepts exactly the texts whose lines are legal at their
positions, and gives each line the word that its reading occupies. -/

def tokenLinesOf (lines : List (Text × Nat)) : List (List Text × Nat) :=
  (lines.map fun (line, number) => (tokens line, number)).filter
    fun entry => !entry.1.isEmpty

def tokenLines (text : Text) : List (List Text × Nat) :=
  tokenLinesOf (Text.numberedLines text)

/-- The region of a line of a text, by its place among the lines with tokens. -/
def regionAt (text : Text) (index : Nat) : Region :=
  position ((tokenLines text).map Prod.fst) index

theorem tokenLinesOf_cons (line : Text) (number : Nat)
    (rest : List (Text × Nat)) :
    tokenLinesOf ((line, number) :: rest) =
      if tokens line = [] then tokenLinesOf rest
      else (tokens line, number) :: tokenLinesOf rest := by
  by_cases blank : tokens line = []
  · simp [tokenLinesOf, blank]
  · simp [tokenLinesOf, blank]

/-- Each statement is a line with tokens, in the region that the lines before it
lead to. -/
theorem statementsFrom_getElem? (region : Region) (lines : List (Text × Nat))
    (index : Nat) :
    (statementsFrom region lines)[index]? =
      (tokenLinesOf lines)[index]?.map fun entry =>
        ⟨entry.2, (((tokenLinesOf lines).map Prod.fst).take index).foldl
          Region.after region, entry.1⟩ := by
  induction lines generalizing region index with
  | nil => rfl
  | cons first rest induction =>
      obtain ⟨line, number⟩ := first
      by_cases blank : tokens line = []
      · rw [statementsFrom_blank region number rest blank,
          tokenLinesOf_cons, if_pos blank]
        exact induction region index
      · rw [statementsFrom_cons region number rest blank,
          tokenLinesOf_cons, if_neg blank]
        cases index with
        | zero => rfl
        | succ index =>
            simp only [List.getElem?_cons_succ, List.map_cons,
              List.take_succ_cons, List.foldl_cons]
            exact induction (region.after (tokens line)) index

theorem statements_getElem? (text : Text) (index : Nat) :
    (statements text)[index]? =
      (tokenLines text)[index]?.map fun entry =>
        ⟨entry.2, regionAt text index, entry.1⟩ := by
  rw [statements, statementsFrom_getElem?]
  by_cases inside : index < (tokenLines text).length
  · have bound : index ≤ ((tokenLines text).map Prod.fst).length := by
      rw [List.length_map]
      exact Nat.le_of_lt inside
    rw [regionAt, position_eq_foldl bound]
    rfl
  · have outside : (tokenLines text)[index]? = none :=
      List.getElem?_eq_none (Nat.le_of_not_lt inside)
    rw [show tokenLinesOf (Text.numberedLines text) = tokenLines text from rfl,
      outside]
    rfl

theorem statements_getElem?_eq_some_iff {text : Text} {index : Nat}
    {statement : Statement} :
    (statements text)[index]? = some statement ↔
      (tokenLines text)[index]? = some (statement.tokens, statement.line) ∧
        statement.region = regionAt text index := by
  rw [statements_getElem?, Option.map_eq_some_iff]
  constructor
  · intro found
    obtain ⟨⟨tokens, number⟩, present, rfl⟩ := found
    exact ⟨present, rfl⟩
  · intro found
    obtain ⟨present, placed⟩ := found
    refine ⟨(statement.tokens, statement.line), present, ?_⟩
    rw [← placed]

private theorem lines_of_statements (text : Text) :
    (statements text).map Statement.line = (tokenLines text).map Prod.snd := by
  apply List.ext_getElem?
  intro index
  rw [List.getElem?_map, List.getElem?_map, statements_getElem?,
    Option.map_map]
  rfl

theorem found_of_tokenLines {text : Text} {index number : Nat} {found : List Text}
    (line : (tokenLines text)[index]? = some (found, number)) :
    ((tokenLines text).map Prod.fst).getD index [] = found := by
  rw [List.getD_eq_getElem?_getD, List.getElem?_map, line]
  rfl

theorem increasing_numberedLines (text : Text) :
    (Text.numberedLines text).Pairwise (·.2 < ·.2) := by
  have numbers : (Text.numberedLines text).map Prod.snd =
      List.range' 1 (Text.lines text).length :=
    List.zipIdx_map_snd 1 (Text.lines text)
  rw [← List.pairwise_map (f := Prod.snd) (R := (· < ·)), numbers]
  exact List.pairwise_lt_range'

theorem increasing_tokenLines (text : Text) :
    ((tokenLines text).map Prod.snd).Pairwise (· < ·) := by
  rw [List.pairwise_map, tokenLines, tokenLinesOf]
  refine List.Pairwise.sublist List.filter_sublist ?_
  rw [List.pairwise_map]
  exact increasing_numberedLines text

theorem numbered_of_tokenLines {text : Text} {index number : Nat}
    {entry : List Text}
    (placed : (tokenLines text)[index]? = some (entry, number)) :
    ∃ line, (line, number) ∈ Text.numberedLines text ∧ tokens line = entry := by
  have member := List.mem_of_getElem? placed
  rw [tokenLines, tokenLinesOf] at member
  obtain ⟨⟨line, _⟩, numbered, same⟩ :=
    List.mem_map.mp (List.mem_of_mem_filter member)
  cases same
  exact ⟨line, numbered, rfl⟩

theorem exists_assemble_eq_ok_iff (text : Text) :
    (∃ program, Program.assemble text = .ok program) ↔
      ∀ statement ∈ statements text,
        Legal statement.region statement.tokens := by
  have traversal := @exists_mapM_eq_ok_iff _ _ _ Statement.locatedWord
    (statements text)
  simp only [Statement.locatedWord_eq_ok_iff, ← legal_iff_exists_prescribes]
    at traversal
  rw [← traversal]
  constructor
  · intro assembled
    obtain ⟨program, assembled⟩ := assembled
    exact ⟨program.words, (Program.assemble_eq_ok_iff.mp assembled).1⟩
  · intro traversed
    obtain ⟨words, traversed⟩ := traversed
    exact ⟨⟨words, _⟩, Program.assemble_eq_ok_iff.mpr ⟨traversed, rfl⟩⟩

theorem prescribes_of_assemble {text : Text} {program : Program}
    (assembled : Program.assemble text = .ok program) {index number : Nat}
    {tokens : List Text}
    (line : (tokenLines text)[index]? = some (tokens, number)) :
    ∃ word, program.words[index]? = some word ∧
      Prescribes (regionAt text index) tokens word := by
  have traversed := (Program.assemble_eq_ok_iff.mp assembled).1
  have stated : (statements text)[index]? =
      some ⟨number, regionAt text index, tokens⟩ :=
    statements_getElem?_eq_some_iff.mpr ⟨line, rfl⟩
  obtain ⟨word, found, computed⟩ := getElem?_of_mapM_eq_ok traversed stated
  exact ⟨word, found, Statement.locatedWord_eq_ok_iff.mp computed⟩

theorem length_words_of_assemble {text : Text} {program : Program}
    (assembled : Program.assemble text = .ok program) :
    program.words.length = (tokenLines text).length := by
  have traversed := (Program.assemble_eq_ok_iff.mp assembled).1
  have lines := congrArg List.length (lines_of_statements text)
  rw [List.length_map, List.length_map] at lines
  rw [length_of_mapM_eq_ok traversed, lines]

theorem lines_of_assemble {text : Text} {program : Program}
    (assembled : Program.assemble text = .ok program) :
    program.lines = some ((tokenLines text).map Prod.snd) := by
  rw [(Program.assemble_eq_ok_iff.mp assembled).2, lines_of_statements]

/-- Assembling succeeds exactly on texts of legal lines. The words are then those
that the lines prescribe, one for each line with tokens and in their order. -/
theorem assemble_follows_line_grammar (text : Text) :
    ((∃ program, Program.assemble text = .ok program) ↔
      ∀ index tokens number,
        (tokenLines text)[index]? = some (tokens, number) →
          Legal (regionAt text index) tokens) ∧
    ∀ program, Program.assemble text = .ok program →
      program.words.length = (tokenLines text).length ∧
      program.lines = some ((tokenLines text).map Prod.snd) ∧
      ∀ index tokens number,
        (tokenLines text)[index]? = some (tokens, number) →
          ∃ word, program.words[index]? = some word ∧
            ∀ other, Prescribes (regionAt text index) tokens other ↔
              other = word := by
  constructor
  · rw [exists_assemble_eq_ok_iff]
    constructor
    · intro legal index tokens number line
      have stated : (statements text)[index]? =
          some ⟨number, regionAt text index, tokens⟩ :=
        statements_getElem?_eq_some_iff.mpr ⟨line, rfl⟩
      exact legal _ (List.mem_of_getElem? stated)
    · intro legal statement member
      obtain ⟨index, stated⟩ := List.mem_iff_getElem?.mp member
      obtain ⟨line, placed⟩ := statements_getElem?_eq_some_iff.mp stated
      rw [placed]
      exact legal index statement.tokens statement.line line
  · intro program assembled
    refine ⟨length_words_of_assemble assembled, lines_of_assemble assembled,
      ?_⟩
    intro index tokens number line
    obtain ⟨word, found, prescribed⟩ := prescribes_of_assemble assembled line
    exact ⟨word, found, prescribed.iff_eq⟩

example : Program.assemble
    ['l', 'o', 'a', 'd', 'c', ' ', '1', '\n', 'a', 'd', 'd'] =
      .ok ⟨[0x210, 0xADD], some [1, 2]⟩ := rfl

end WordMachine.Assembly
