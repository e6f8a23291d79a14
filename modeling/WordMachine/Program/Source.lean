import WordMachine.Assembly.Statement
import WordMachine.Program.Basic

namespace WordMachine

/-! Programs from assembly text. Assembling stops at the first statement without a
word. -/

namespace Program

def assemble (text : Text) : Except SourceError Program :=
  let statements := Assembly.statements text
  match statements.mapM Assembly.Statement.locatedWord with
  | .ok words => .ok ⟨words, some (statements.map Assembly.Statement.line)⟩
  | .error error => .error error

theorem assemble_eq_ok_iff {text : Text} {program : Program} :
    assemble text = .ok program ↔
      (Assembly.statements text).mapM Assembly.Statement.locatedWord =
          .ok program.words ∧
        program.lines =
          some ((Assembly.statements text).map Assembly.Statement.line) := by
  unfold assemble
  cases assembled : (Assembly.statements text).mapM Assembly.Statement.locatedWord with
  | error error => simp [assembled]
  | ok words =>
      simp only [assembled, Except.ok.injEq]
      constructor
      · rintro rfl
        exact ⟨rfl, rfl⟩
      · rintro ⟨rfl, lines⟩
        cases program
        simp_all

theorem assemble_eq_error_iff {text : Text} {error : SourceError} :
    assemble text = .error error ↔
      (Assembly.statements text).mapM Assembly.Statement.locatedWord =
        .error error := by
  unfold assemble
  cases assembled : (Assembly.statements text).mapM Assembly.Statement.locatedWord with
  | error error => simp [assembled]
  | ok words => simp [assembled]

end Program

end WordMachine
