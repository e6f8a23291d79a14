namespace WordMachine

/-! Program texts, tokens and paths are sequences of characters. Printed output
is assembled as `String`. -/

abbrev Text := List Char

namespace Text

/-- The maximal non-empty runs of characters that are not separators. -/
def words (isSeparator : Char → Bool) (text : Text) : List Text :=
  (text.splitOnP isSeparator).filter fun piece => !piece.isEmpty

@[simp] theorem words_nil (isSeparator : Char → Bool) :
    words isSeparator [] = [] := by
  simp [words, List.splitOnP_nil]

def unwords (pieces : List Text) : Text :=
  [' '].intercalate pieces

/-- Lower-cases the twenty-six ASCII letters and keeps every other character. -/
def lower (text : Text) : Text :=
  text.map Char.toLower

@[simp] theorem lower_nil : lower [] = [] := rfl

@[simp] theorem lower_cons (c : Char) (rest : Text) :
    lower (c :: rest) = c.toLower :: lower rest := rfl

@[simp] theorem lower_append (front back : Text) :
    lower (front ++ back) = lower front ++ lower back := by
  simp [lower]

/-- Equality up to the case of ASCII letters. -/
def sameLetters (first second : Text) : Bool :=
  lower first == lower second

theorem sameLetters_iff {first second : Text} :
    sameLetters first second = true ↔ lower first = lower second := by
  simp [sameLetters]

def trim (isBlank : Char → Bool) (text : Text) : Text :=
  ((text.dropWhile isBlank).reverse.dropWhile isBlank).reverse

end Text

end WordMachine
