import WordMachine.Assembly.Error
import WordMachine.Proofs.Assembly.Combinators
import WordMachine.Proofs.Assembly.Layout
import WordMachine.Proofs.Text.Trim
import WordMachine.Proofs.Text.Words

namespace WordMachine.Assembly

/-! The grammar of a line takes every line, and finds its tokens. -/

namespace Combinators

variable (library : Combinators)

def token : Parser Text :=
  library.isNot [' ', '\t', '#']

def comment : Parser Text :=
  library.preceded (library.oneChar '#') library.rest

def line : Parser (List Text) :=
  library.allConsuming
    (library.terminated
      (library.delimited library.space0
        (library.separatedList library.space1 library.token) library.space0)
      (library.opt library.comment))

end Combinators

/-- The tokens of a line, unless the grammar does not take it. -/
def Combinators.scan (library : Combinators) (text : Text) :
    Except AssemblyError (List Text) :=
  match library.line text with
  | some (_, found) => .ok found
  | none => .error (.unscanned text)

structure Whole (token : Text) : Prop where
  present : token ≠ []
  solid : ∀ c ∈ token, c ≠ ' ' ∧ c ≠ '\t' ∧ c ≠ '#'

def Blank (gap : Text) : Prop :=
  ∀ c ∈ gap, c = ' ' ∨ c = '\t'

def Ends (text : Text) : Prop :=
  ∀ c ∈ text.head?, c = ' ' ∨ c = '\t' ∨ c = '#'

private def inToken (c : Char) : Bool :=
  !([' ', '\t', '#'].contains c)

private theorem inToken_iff {c : Char} :
    inToken c = true ↔ c ≠ ' ' ∧ c ≠ '\t' ∧ c ≠ '#' := by
  simp [inToken]

private theorem inToken_eq_false_iff {c : Char} :
    inToken c = false ↔ c = ' ' ∨ c = '\t' ∨ c = '#' := by
  simp [inToken, ← or_iff_not_imp_left]

section Tokens

variable {text : Text}

private def Trails (text : Text) : Prop :=
  ∀ c ∈ (text.dropWhile isSeparator).head?, c = '#'

theorem tokens_dropWhile_isSeparator (text : Text) :
    tokens (text.dropWhile isSeparator) = tokens text := by
  induction text with
  | nil => rfl
  | cons c rest induction =>
      cases separates : isSeparator c with
      | false => rw [List.dropWhile_cons_of_neg (by simp [separates])]
      | true =>
          rw [List.dropWhile_cons_of_pos separates, induction,
            tokens_cons_separator (isSeparator_iff.mp separates)]

private theorem Trails.tokens_eq_nil (trails : Trails text) : tokens text = [] := by
  rw [← tokens_dropWhile_isSeparator]
  rw [Trails] at trails
  cases behind : text.dropWhile isSeparator with
  | nil => exact tokens_nil
  | cons c rest =>
      rw [trails c (by rw [behind]; rfl)]
      exact tokens_comment rest

private theorem eq_mark {c : Char} (outside : inToken c = false)
    (noSeparator : isSeparator c = false) : c = '#' := by
  rw [Bool.eq_false_iff, ne_eq, isSeparator_iff, not_or] at noSeparator
  rcases inToken_eq_false_iff.mp outside with space | tab | mark
  · exact absurd space noSeparator.1
  · exact absurd tab noSeparator.2
  · exact mark

private theorem trails_of_head? (outside : ∀ c ∈ text.head?, inToken c = false)
    (noSeparator : ∀ c ∈ text.head?, isSeparator c = false) : Trails text := by
  intro c first
  cases text with
  | nil => cases first
  | cons head rest =>
      rw [List.dropWhile_cons_of_neg (by simp [noSeparator head rfl])] at first
      exact eq_mark (outside c first) (noSeparator c first)

private theorem whole_takeWhile_inToken (starts : ∃ c ∈ text.head?, inToken c = true) :
    Whole (text.takeWhile inToken) where
  present := by
    obtain ⟨c, first, inside⟩ := starts
    cases text with
    | nil => cases first
    | cons head rest =>
        cases first
        rw [List.takeWhile_cons_of_pos inside]
        exact List.cons_ne_nil c _
  solid c member := inToken_iff.mp (List.mem_takeWhile_imp member)

private theorem tokens_eq_cons (starts : ∃ c ∈ text.head?, inToken c = true) :
    tokens text = text.takeWhile inToken :: tokens (text.dropWhile inToken) := by
  obtain ⟨present, solid⟩ := whole_takeWhile_inToken starts
  have ends : Ends (text.dropWhile inToken) := fun c first =>
    inToken_eq_false_iff.mp (Text.head?_dropWhile_eq_false inToken text c first)
  conv =>
    lhs
    rw [← List.takeWhile_append_dropWhile (p := inToken) (l := text)]
  exact tokens_append present solid ends

end Tokens

section Grammar

variable {text : Text}

/-- Behind a token the list goes on with all other tokens. What is left over is
blank, or blank before a comment. -/
private theorem exists_continued (text : Text)
    (apart : ∀ c ∈ text.head?, inToken c = false) :
    ∃ last, Parser.Continued (.run isSeparator) (.run inToken) text last
      (tokens text) ∧ Trails last := by
  induction size : text.length using Nat.strongRecOn generalizing text with
  | ind length induction =>
      rcases Parser.run_cases isSeparator text with
        ⟨ends, noSeparator⟩ | ⟨separated, shorter, _⟩
      · have trails : Trails text := trails_of_head? apart noSeparator
        rw [trails.tokens_eq_nil]
        exact ⟨text, .unseparated ends, trails⟩
      · have behind := Text.head?_dropWhile_eq_false isSeparator text
        rcases Parser.run_cases inToken (text.dropWhile isSeparator) with
          ⟨ends, noToken⟩ | ⟨taken, shorter', starts⟩
        · have trails : Trails text := fun c first =>
            eq_mark (noToken c first) (behind c first)
          rw [trails.tokens_eq_nil]
          exact ⟨text, .givenBack separated shorter ends, trails⟩
        · obtain ⟨last, continued, trails⟩ := induction _ (by omega) _
            (Text.head?_dropWhile_eq_false inToken (text.dropWhile isSeparator)) rfl
          rw [← tokens_dropWhile_isSeparator, tokens_eq_cons starts]
          exact ⟨last, .item separated shorter taken shorter' continued, trails⟩

private theorem exists_separated (text : Text)
    (apart : ∀ c ∈ text.head?, isSeparator c = false) :
    ∃ last, Parser.Separated (.run isSeparator) (.run inToken) text last
      (tokens text) ∧ Trails last := by
  rcases Parser.run_cases inToken text with ⟨ends, noToken⟩ | ⟨taken, shorter, starts⟩
  · have trails : Trails text := trails_of_head? noToken apart
    rw [trails.tokens_eq_nil]
    exact ⟨text, .empty ends, trails⟩
  · obtain ⟨last, continued, trails⟩ := exists_continued (text.dropWhile inToken)
      (Text.head?_dropWhile_eq_false inToken text)
    rw [tokens_eq_cons starts]
    exact ⟨last, .cons taken shorter continued, trails⟩

variable {library : Combinators}

theorem Combinators.Documented.opt_comment (documented : library.Documented)
    (mark : ∀ c ∈ text.head?, c = '#') :
    ∃ note, library.opt library.comment text = some ([], note) := by
  rw [documented.opt, Combinators.comment, documented.preceded, documented.oneChar]
  cases text with
  | nil => exact ⟨none, rfl⟩
  | cons c note =>
      cases mark c rfl
      refine ⟨some note, ?_⟩
      simp [documented.rest]

theorem Combinators.Documented.line_eq (documented : library.Documented)
    (text : Text) : library.line text = some ([], tokens text) := by
  have token : library.token = .run inToken := documented.isNot [' ', '\t', '#']
  obtain ⟨last, separated, trails⟩ := exists_separated (text.dropWhile isSeparator)
    (Text.head?_dropWhile_eq_false isSeparator text)
  have listed := documented.separatedList separated
  obtain ⟨note, commented⟩ := documented.opt_comment trails
  rw [tokens_dropWhile_isSeparator] at listed
  simp [Combinators.line, documented.allConsuming, documented.terminated,
    documented.delimited, documented.space0, documented.space1, token, listed,
    commented]

theorem Combinators.Documented.scan_eq (documented : library.Documented)
    (text : Text) : library.scan text = .ok (tokens text) := by
  rw [Combinators.scan, documented.line_eq]

end Grammar

/-- Tokens in a row, each behind a gap that only the first may do without, with
padding and perhaps a comment at the end. -/
structure Row where
  entries : List (Text × Text)
  padding : Text
  note : Text
  blank : ∀ entry ∈ entries, Blank entry.1
  apart : ∀ entry ∈ entries.tail, entry.1 ≠ []
  whole : ∀ entry ∈ entries, Whole entry.2
  padded : Blank padding
  noted : ∀ c ∈ note.head?, c = '#'

namespace Row

variable (row : Row)

def text : Text :=
  row.entries.flatMap (fun (gap, token) => gap ++ token) ++ (row.padding ++ row.note)

def tokens : List Text :=
  row.entries.map Prod.snd

end Row

section Layout

variable {found : List Text} {text gap : Text}

theorem Laid.append_left (blank : Blank gap) (laid : Laid found text) :
    Laid found (gap ++ text) := by
  induction gap with
  | nil => exact laid
  | cons c gap induction =>
      rw [Blank, List.forall_mem_cons] at blank
      exact .gap blank.1 (induction blank.2)

theorem Blank.ends_append (blank : Blank gap) (ends : gap = [] → Ends text) :
    Ends (gap ++ text) := by
  cases gap with
  | nil => exact ends rfl
  | cons c gap =>
      rintro _ ⟨⟩
      exact (blank c List.mem_cons_self).imp_right .inl

theorem Laid.whole (laid : Laid found text) : ∀ token ∈ found, Whole token := by
  induction laid with
  | done => exact List.forall_mem_nil _
  | comment note => exact List.forall_mem_nil _
  | gap _ _ induction => exact induction
  | token present solid _ _ induction =>
      exact List.forall_mem_cons.mpr ⟨⟨present, solid⟩, induction⟩

private theorem statementPart_append_comment (front note : Text) :
    statementPart (front ++ '#' :: note) = statementPart front := by
  induction front with
  | nil => rfl
  | cons c front induction =>
      simp only [statementPart] at induction
      simp only [statementPart, List.cons_append, List.takeWhile_cons, induction]

theorem Row.laid (row : Row) : Laid row.tokens row.text := by
  obtain ⟨entries, padding, note, blank, apart, whole, padded, noted⟩ := row
  simp only [Row.tokens, Row.text]
  have ending : Laid [] (padding ++ note) := by
    apply Laid.append_left padded
    cases note with
    | nil => exact .done
    | cons c note =>
        cases noted c rfl
        exact .comment note
  induction entries with
  | nil => exact ending
  | cons entry others induction =>
      obtain ⟨gap, token⟩ := entry
      rw [List.forall_mem_cons] at blank whole
      have rest := induction blank.2
        (fun entry member => apart entry (List.mem_of_mem_tail member)) whole.2
      have ends : Ends (others.flatMap (fun (gap, token) => gap ++ token) ++
          (padding ++ note)) := by
        cases others with
        | nil =>
            rw [List.flatMap_nil, List.nil_append]
            exact padded.ends_append fun _ c first => .inr (.inr (noted c first))
        | cons entry others =>
            rw [List.flatMap_cons, List.append_assoc, List.append_assoc]
            apply (List.forall_mem_cons.mp blank.2).1.ends_append
            exact fun none => absurd none (apart entry List.mem_cons_self)
      rw [List.flatMap_cons, List.append_assoc, List.append_assoc]
      exact Laid.append_left blank.1 (.token whole.1.present whole.1.solid ends rest)

end Layout

/-- Scanning succeeds on every text, and finds the runs between spaces and tabs
before the first `#`. -/
theorem scan_finds_every_run {library : Combinators}
    (documented : library.Documented) :
    (∀ text, library.scan text = .ok (tokens text)) ∧
      (∀ text, ∃ placed, Text.Places isSeparator (statementPart text) placed ∧
        library.scan text = .ok (placed.map Prod.snd)) ∧
      (∀ front note, library.scan (front ++ '#' :: note) = library.scan front) ∧
      (∀ text found, library.scan text = .ok found →
        ∀ token ∈ found, Whole token) ∧
      ∀ row : Row, library.scan row.text = .ok row.tokens := by
  refine ⟨documented.scan_eq, fun text => ?_, fun front note => ?_,
    fun text found scanned => ?_, fun row => ?_⟩
  · obtain ⟨placed, places, listed⟩ :=
      Text.exists_places isSeparator (statementPart text)
    refine ⟨placed, places, ?_⟩
    rw [documented.scan_eq, listed, tokens]
  · rw [documented.scan_eq, documented.scan_eq, tokens, tokens,
      statementPart_append_comment]
  · rw [documented.scan_eq] at scanned
    cases scanned
    exact (laid_tokens text).whole
  · rw [documented.scan_eq, row.laid.tokens_eq]

def sampleRow : Row where
  entries := [("\t".toList, "add".toList), (" ".toList, "0".toList),
    (" \t".toList, "1".toList)]
  padding := " ".toList
  note := "# r0".toList
  blank := by simp [Blank]
  apart := by simp
  whole := by
    simp only [List.forall_mem_cons]
    refine ⟨⟨by simp, by simp⟩, ⟨by simp, by simp⟩, ⟨by simp, by simp⟩, ?_⟩
    exact List.forall_mem_nil _
  padded := by simp [Blank]
  noted := by simp

theorem scan_finds_every_run_of_a_row :
    Combinators.standard.Documented ∧
      Combinators.standard.scan "\tadd 0 \t1 # r0".toList =
        .ok ["add".toList, "0".toList, "1".toList] :=
  ⟨Combinators.documented_standard,
    (scan_finds_every_run Combinators.documented_standard).2.2.2.2 sampleRow⟩

end WordMachine.Assembly
