import Mathlib.Data.List.TakeWhile
import WordMachine.Assembly.Token
import WordMachine.Proofs.Text.Lines
import WordMachine.Text.Blank

namespace WordMachine

/-! Tokens that are written on a line with a space between them are the tokens of
that line. -/

private theorem isBlank_of_isSeparator {c : Char}
    (separates : Assembly.isSeparator c = true) : isBlank c = true := by
  rw [Assembly.isSeparator, Bool.or_eq_true, beq_iff_eq, beq_iff_eq] at separates
  rcases separates with rfl | rfl
  · rfl
  · rfl

namespace Text

variable {piece : Text} {pieces : List Text}

theorem unwords_singleton (piece : Text) : unwords [piece] = piece := by
  simp [unwords, List.intercalate]

theorem unwords_cons (piece : Text) (present : pieces ≠ []) :
    unwords (piece :: pieces) = piece ++ ' ' :: unwords pieces := by
  rw [unwords, List.intercalate_cons_of_ne_nil present, List.append_assoc]
  rfl

private theorem mem_unwords {c : Char} (member : c ∈ unwords pieces) :
    c = ' ' ∨ ∃ piece ∈ pieces, c ∈ piece := by
  induction pieces with
  | nil => exact absurd member List.not_mem_nil
  | cons piece rest induction =>
      by_cases empty : rest = []
      · subst empty
        rw [unwords_singleton] at member
        exact .inr ⟨piece, List.mem_cons_self, member⟩
      · rw [unwords_cons piece empty, List.mem_append, List.mem_cons] at member
        rcases member with first | rfl | later
        · exact .inr ⟨piece, List.mem_cons_self, first⟩
        · exact .inl rfl
        · refine (induction later).imp_right fun found => ?_
          obtain ⟨other, listed, inside⟩ := found
          exact ⟨other, List.mem_cons_of_mem piece listed, inside⟩

private theorem words_unwords {isSeparator : Char → Bool}
    (space : isSeparator ' ' = true)
    (present : ∀ piece ∈ pieces, piece ≠ [])
    (solid : ∀ piece ∈ pieces, ∀ c ∈ piece, isSeparator c = false) :
    (unwords pieces).words isSeparator = pieces := by
  induction pieces with
  | nil => exact words_nil isSeparator
  | cons piece rest induction =>
      rw [List.forall_mem_cons] at present solid
      have single := words_of_forall_not present.1 solid.1
      by_cases empty : rest = []
      · subst empty
        rw [unwords_singleton, single]
      · rw [unwords_cons piece empty, words_append_cons space, single,
          induction present.2 solid.2]
        rfl

end Text

namespace Assembly

structure Bare (token : Text) : Prop where
  present : token ≠ []
  solid : ∀ c ∈ token, isBlank c = false
  uncommented : '#' ∉ token

variable {found : List Text}

theorem Bare.not_mem {token : Text} (bare : Bare token) {c : Char}
    (blank : isBlank c = true) : c ∉ token := by
  intro member
  rw [bare.solid c member] at blank
  cases blank

theorem tokens_unwords (bare : ∀ token ∈ found, Bare token) :
    tokens (Text.unwords found) = found := by
  have whole : statementPart (Text.unwords found) = Text.unwords found := by
    rw [statementPart, List.takeWhile_eq_self_iff]
    intro c member
    rw [bne_iff_ne]
    rintro rfl
    rcases Text.mem_unwords member with space | ⟨token, listed, inside⟩
    · cases space
    · exact (bare token listed).uncommented inside
  rw [tokens, whole]
  apply Text.words_unwords rfl fun token listed => (bare token listed).present
  intro token listed c inside
  rw [Bool.eq_false_iff]
  intro separates
  exact (bare token listed).not_mem (isBlank_of_isSeparator separates) inside

theorem clean_unwords (bare : ∀ token ∈ found, Bare token) :
    '\n' ∉ Text.unwords found ∧ '\r' ∉ Text.unwords found := by
  have outside {c : Char} (blank : isBlank c = true) (other : c ≠ ' ') :
      c ∉ Text.unwords found := by
    intro member
    rcases Text.mem_unwords member with space | ⟨token, listed, inside⟩
    · exact other space
    · exact (bare token listed).not_mem blank inside
  exact ⟨outside rfl (by decide), outside rfl (by decide)⟩

end Assembly

end WordMachine
