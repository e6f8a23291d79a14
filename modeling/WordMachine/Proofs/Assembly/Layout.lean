import WordMachine.Proofs.Assembly.Letters
import WordMachine.Proofs.Text.Lines

namespace WordMachine.Assembly

/-! How tokens are laid out on a line, and lines in a text, and what becomes of both
when the case of letters is folded. -/

/-- Tokens laid out on a line. Spaces and tabs may stand anywhere around them, and
a comment may stand behind them. -/
inductive Laid : List Text → Text → Prop
  | done : Laid [] []
  | comment (note : Text) : Laid [] ('#' :: note)
  | gap {c : Char} {found : List Text} {rest : Text} (blank : c = ' ' ∨ c = '\t')
      (others : Laid found rest) : Laid found (c :: rest)
  | token {token rest : Text} {found : List Text} (present : token ≠ [])
      (solid : ∀ c ∈ token, c ≠ ' ' ∧ c ≠ '\t' ∧ c ≠ '#')
      (apart : ∀ c ∈ rest.head?, c = ' ' ∨ c = '\t' ∨ c = '#')
      (others : Laid found rest) : Laid (token :: found) (token ++ rest)

variable {found : List Text} {line : Text}

theorem isSeparator_iff {c : Char} : isSeparator c = true ↔ c = ' ' ∨ c = '\t' := by
  rw [isSeparator, Bool.or_eq_true, beq_iff_eq, beq_iff_eq]

theorem tokens_cons_separator {c : Char} (blank : c = ' ' ∨ c = '\t') (rest : Text) :
    tokens (c :: rest) = tokens rest := by
  have separates := isSeparator_iff.mpr blank
  have kept : statementPart (c :: rest) = c :: statementPart rest := by
    rcases blank with rfl | rfl
    · rfl
    · rfl
  rw [tokens, kept]
  exact Text.words_append_cons separates [] (statementPart rest)

theorem tokens_append {token rest : Text} (present : token ≠ [])
    (solid : ∀ c ∈ token, c ≠ ' ' ∧ c ≠ '\t' ∧ c ≠ '#')
    (apart : ∀ c ∈ rest.head?, c = ' ' ∨ c = '\t' ∨ c = '#') :
    tokens (token ++ rest) = token :: tokens rest := by
  have inside : ∀ c ∈ token, (c != '#') = true := fun c member =>
    bne_iff_ne.mpr (solid c member).2.2
  have whole : ∀ c ∈ token, isSeparator c = false := by
    intro c member
    obtain ⟨noSpace, noTab, _⟩ := solid c member
    rw [Bool.eq_false_iff, ne_eq, isSeparator_iff]
    rintro (space | tab)
    · exact noSpace space
    · exact noTab tab
  have single := Text.words_of_forall_not present whole
  rw [tokens, statementPart, List.takeWhile_append_of_pos inside]
  cases rest with
  | nil =>
      rw [List.takeWhile_nil, List.append_nil, single, tokens_nil]
  | cons c others =>
      rcases apart c rfl with rfl | rfl | rfl
      · rw [List.takeWhile_cons_of_pos rfl, Text.words_append_cons rfl, single,
          tokens_cons_separator (.inl rfl)]
        rfl
      · rw [List.takeWhile_cons_of_pos rfl, Text.words_append_cons rfl, single,
          tokens_cons_separator (.inr rfl)]
        rfl
      · rw [List.takeWhile_cons_of_neg (by decide), List.append_nil, single,
          tokens_comment]

theorem Laid.tokens_eq (laid : Laid found line) : tokens line = found := by
  induction laid with
  | done => exact tokens_nil
  | comment note => exact tokens_comment note
  | gap blank _ induction => rw [tokens_cons_separator blank, induction]
  | token present solid apart _ induction =>
      rw [tokens_append present solid apart, induction]

theorem Laid.exists_cons {c : Char} (solid : c ≠ ' ' ∧ c ≠ '\t' ∧ c ≠ '#')
    (laid : Laid found line) : ∃ found', Laid found' (c :: line) := by
  have alone : ∀ other ∈ [c], other ≠ ' ' ∧ other ≠ '\t' ∧ other ≠ '#' :=
    List.forall_mem_singleton.mpr solid
  have starts {found : List Text} {rest : Text}
      (apart : ∀ c ∈ rest.head?, c = ' ' ∨ c = '\t' ∨ c = '#')
      (others : Laid found rest) : ∃ found', Laid found' (c :: rest) :=
    ⟨_, .token (List.cons_ne_nil c []) alone apart others⟩
  cases laid with
  | done => exact starts (by simp) .done
  | comment note => exact starts (by simp) (.comment note)
  | gap blank others =>
      refine starts ?_ (.gap blank others)
      intro other first
      cases first
      exact blank.imp_right .inl
  | token present solid' apart others =>
      exact ⟨_, .token (List.cons_ne_nil c _)
        (List.forall_mem_cons.mpr ⟨solid, solid'⟩) apart others⟩

/-- Every line is its tokens laid out. -/
theorem laid_tokens (line : Text) : Laid (tokens line) line := by
  have exists_laid : ∃ found, Laid found line := by
    induction line with
    | nil => exact ⟨[], .done⟩
    | cons c rest induction =>
        obtain ⟨found, laid⟩ := induction
        by_cases blank : c = ' ' ∨ c = '\t'
        · exact ⟨found, .gap blank laid⟩
        · by_cases marks : c = '#'
          · subst marks
            exact ⟨[], .comment rest⟩
          · rw [not_or] at blank
            exact laid.exists_cons ⟨blank.1, blank.2, marks⟩
  obtain ⟨found, laid⟩ := exists_laid
  rw [laid.tokens_eq]
  exact laid

theorem Laid.lower (laid : Laid found line) :
    Laid (found.map Text.lower) line.lower := by
  induction laid with
  | done => exact .done
  | comment note => exact .comment (Text.lower note)
  | @gap c found rest blank _ induction =>
      have same : c.toLower = c := by
        rcases blank with rfl | rfl
        · rfl
        · rfl
      rw [Text.lower_cons, same]
      exact .gap blank induction
  | @token token rest found present solid apart _ induction =>
      have folds {c d : Char} (caseless : d.isAlpha = false) (other : c ≠ d) :
          c.toLower ≠ d := (Text.toLower_eq_iff caseless).not.mpr other
      rw [List.map_cons, Text.lower_append]
      refine .token ?_ ?_ ?_ induction
      · rwa [Text.lower, ne_eq, List.map_eq_nil_iff]
      · intro c member
        obtain ⟨other, inside, rfl⟩ := List.mem_map.mp member
        obtain ⟨noSpace, noTab, noMark⟩ := solid other inside
        exact ⟨folds rfl noSpace, folds rfl noTab, folds rfl noMark⟩
      · intro c first
        rw [Text.lower, List.head?_map, Option.mem_def, Option.map_eq_some_iff] at first
        obtain ⟨other, first, rfl⟩ := first
        rcases apart other first with rfl | rfl | rfl
        · exact .inl rfl
        · exact .inr (.inl rfl)
        · exact .inr (.inr rfl)

theorem tokens_lower (line : Text) :
    tokens line.lower = (tokens line).map Text.lower :=
  (laid_tokens line).lower.tokens_eq

def withReturns (text : Text) : Text :=
  text.flatMap fun c => if c = '\n' then ['\r', '\n'] else [c]

section Lines

variable {text : Text} {lines : List Text}

private theorem withReturns_of_not_mem (inside : '\n' ∉ line) :
    withReturns line = line := by
  rw [withReturns, List.flatMap_congr (g := fun c => [c])]
  · exact List.flatMap_singleton' line
  · intro c member
    rw [if_neg]
    rintro rfl
    exact inside member

theorem lined_lower (lined : Lined '\n' '\r' text lines) :
    Lined '\n' '\r' text.lower (lines.map Text.lower) := by
  have outside {line : Text} (inside : '\n' ∉ line) : '\n' ∉ line.lower :=
    (Text.mem_lower_iff rfl).not.mpr inside
  induction lined with
  | done => exact .done
  | last present inside =>
      exact .last (by rwa [Text.lower, ne_eq, List.map_eq_nil_iff]) (outside inside)
  | @ended line rest lines inside bare _ induction =>
      rw [Text.lower_append]
      refine .ended (outside inside) ?_ induction
      rw [Text.lower, List.getLast?_map, ne_eq, Option.map_eq_some_iff]
      rintro ⟨c, last, same⟩
      rw [Text.toLower_eq_iff rfl] at same
      subst same
      exact bare last
  | @returned line rest lines inside _ induction =>
      rw [Text.lower_append, Text.lower_append]
      exact .returned (outside inside) induction

theorem lined_withReturns (lined : Lined '\n' '\r' text lines) (bare : '\r' ∉ text) :
    Lined '\n' '\r' (withReturns text) lines := by
  induction lined with
  | done => exact .done
  | last present inside =>
      rw [withReturns_of_not_mem inside]
      exact .last present inside
  | @ended line rest lines inside _ _ induction =>
      have parts : withReturns (line ++ '\n' :: rest) =
          line ++ ['\r'] ++ '\n' :: withReturns rest := by
        rw [List.append_assoc]
        conv =>
          rhs
          rw [← withReturns_of_not_mem inside]
        exact List.flatMap_append
      rw [parts]
      refine .returned inside (induction ?_)
      intro member
      exact bare (List.mem_append_right line (List.mem_cons_of_mem _ member))
  | returned inside _ _ => exact absurd (by simp) bare

end Lines

end WordMachine.Assembly
