import WordMachine.Assembly.Constant
import WordMachine.Program.Basic
import WordMachine.Text.Blank
import WordMachine.Text.Lines

namespace WordMachine

/-! Programs from hexadecimal images: every token between blanks is a word. -/

namespace Program

def imageTokens (text : Text) : List (Text × Nat) :=
  (Text.numberedLines text).flatMap fun (line, number) =>
    (line.words isBlank).map fun token => (token, number)

def imageWord (entry : Text × Nat) : Except SourceError Word :=
  (Assembly.constant entry.1).mapError fun cause => ⟨entry.2, cause⟩

def ofHexImage (text : Text) : Except SourceError Program :=
  ((imageTokens text).mapM imageWord).map ofWords

theorem lines_of_ofHexImage {text : Text} {program : Program}
    (read : ofHexImage text = .ok program) : program.lines = none := by
  unfold ofHexImage at read
  cases words : (imageTokens text).mapM imageWord with
  | error error =>
      rw [words] at read
      cases read
  | ok found =>
      rw [words] at read
      cases read
      rfl

end Program

end WordMachine
