import WordMachine.Text.Basic

namespace WordMachine.Assembly

/-! The tokens of a line stand before its first `#`, with spaces and tabs
between them. -/

def isSeparator (c : Char) : Bool :=
  c == ' ' || c == '\t'

def statementPart (line : Text) : Text :=
  line.takeWhile fun c => c != '#'

def tokens (line : Text) : List Text :=
  (statementPart line).words isSeparator

@[simp] theorem tokens_nil : tokens [] = [] := by
  simp [tokens, statementPart]

theorem tokens_comment (rest : Text) : tokens ('#' :: rest) = [] := by
  simp [tokens, statementPart]

end WordMachine.Assembly
