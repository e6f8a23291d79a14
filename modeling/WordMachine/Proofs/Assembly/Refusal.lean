import WordMachine.Proofs.Assembly.Operand
import WordMachine.Proofs.Assembly.Token

namespace WordMachine.Assembly

/-! Why a line is refused. Its tokens and its region decide that alone. -/

/-- A line without a word, and what is wrong with it. Outside the instructions a
line is wrong as a whole. A lone token that is no operation was meant as a
constant, and a line that starts with an operation lacks operands, has too many of
them, or has one that names no register. -/
inductive Refused : Region → List Text → AssemblyError → Prop
  | whole {region : Region} {found : List Text} (placed : region ≠ .instructions)
      (illegal : ¬ Legal region found) :
      Refused region found (.invalidConstant (Text.unwords found))
  | lone {token : Text} (foreign : ∀ opcode : Opcode, token.lower ≠ opcode.mnemonic)
      (unread : ∀ word, ¬ Literal token word) :
      Refused .instructions [token] (.invalidConstant token)
  | unknown {mnemonic : Text} {operands : List Text}
      (foreign : ∀ opcode : Opcode, mnemonic.lower ≠ opcode.mnemonic)
      (several : operands ≠ []) :
      Refused .instructions (mnemonic :: operands) (.unknownMnemonic mnemonic)
  | count {mnemonic : Text} {opcode : Opcode} {operands : List Text}
      (spelled : mnemonic.lower = opcode.mnemonic)
      (noHalt : ¬ (opcode = .halt ∧ operands = []))
      (wrong : operands.length ≠ opcode.arity) :
      Refused .instructions (mnemonic :: operands)
        (.argumentCount opcode operands.length)
  | register {mnemonic operand : Text} {opcode : Opcode} {operands : List Text}
      (spelled : mnemonic.lower = opcode.mnemonic)
      (count : operands.length = opcode.arity) (bad : FirstBad operands operand) :
      Refused .instructions (mnemonic :: operands) (.registerRange operand)

variable {region : Region} {found : List Text} {cause : AssemblyError}

theorem Statement.exists_word_eq_error_iff {statement : Statement} :
    (∃ cause, statement.word = .error cause) ↔
      ¬ Legal statement.region statement.tokens := by
  rw [legal_iff_exists_prescribes]
  simp only [← word_eq_ok_iff]
  cases statement.word with
  | error cause => simp
  | ok word => simp

section Whole

theorem soleConstant_error (failed : soleConstant found = .error cause) :
    cause = .invalidConstant (Text.unwords found) := by
  unfold soleConstant at failed
  split at failed
  next token =>
      rw [Text.unwords_singleton]
      exact (constant_eq_error_iff.mp failed).2
  next => exact (Except.error.inj failed).symm

private theorem dataWord_error (failed : dataWord found = .error cause) :
    cause = .invalidConstant (Text.unwords found) := by
  unfold dataWord at failed
  split at failed
  next token =>
      split at failed
      next => cases failed
      next => exact soleConstant_error failed
  next => exact soleConstant_error failed

private theorem word_eq_error_of_ne_instructions {number : Nat}
    (placed : region ≠ .instructions) :
    Statement.word ⟨number, region, found⟩ = .error cause ↔
      ¬ Legal region found ∧ cause = .invalidConstant (Text.unwords found) := by
  have named {cause : AssemblyError}
      (failed : Statement.word ⟨number, region, found⟩ = .error cause) :
      cause = .invalidConstant (Text.unwords found) := by
    cases region with
    | instructions => exact absurd rfl placed
    | constant => exact soleConstant_error failed
    | data => exact dataWord_error failed
  have refused := @Statement.exists_word_eq_error_iff ⟨number, region, found⟩
  constructor
  · intro failed
    exact ⟨refused.mp ⟨cause, failed⟩, named failed⟩
  · rintro ⟨illegal, rfl⟩
    obtain ⟨cause, failed⟩ := refused.mpr illegal
    rw [← named failed]
    exact failed

end Whole

section Instructions

variable {mnemonic token : Text} {opcode : Opcode} {operands : List Text}

theorem instructionLine_of_spelled (spelled : mnemonic.lower = opcode.mnemonic)
    (noHalt : ¬ (opcode = .halt ∧ operands = [])) :
    instructionLine (mnemonic :: operands) = instructionWord opcode operands := by
  have named := Opcode.ofMnemonic?_eq_some_iff.mpr spelled
  cases operands with
  | nil =>
      have other : ¬ isHalt mnemonic = true := by
        rw [isHalt_iff, spelled, Opcode.mnemonic_inj]
        exact fun same => noHalt ⟨same, rfl⟩
      simp only [instructionLine, if_neg other, named]
  | cons first rest => simp only [instructionLine, named]

theorem instructionLine_of_foreign
    (foreign : ∀ opcode : Opcode, mnemonic.lower ≠ opcode.mnemonic) :
    instructionLine (mnemonic :: operands) =
      if operands = [] then constant mnemonic
      else .error (.unknownMnemonic mnemonic) := by
  have unnamed := ofMnemonic?_eq_none_iff.mpr foreign
  cases operands with
  | nil =>
      have other : ¬ isHalt mnemonic = true := isHalt_iff.not.mpr (foreign .halt)
      simp only [instructionLine, if_neg other, unnamed, if_true]
  | cons first rest => simp [instructionLine, unnamed]

private theorem constant_eq_error_iff_unread {token : Text} :
    constant token = .error cause ↔
      (∀ word, ¬ Literal token word) ∧ cause = .invalidConstant token := by
  rw [constant_eq_error_iff]
  simp only [← constant?_eq_some_iff_literal, Option.eq_none_iff_forall_ne_some]

private theorem refused_of_instructionLine (present : found ≠ [])
    (failed : instructionLine found = .error cause) :
    Refused .instructions found cause := by
  obtain ⟨mnemonic, operands, rfl⟩ := List.exists_cons_of_ne_nil present
  by_cases named : ∃ opcode : Opcode, mnemonic.lower = opcode.mnemonic
  · obtain ⟨opcode, spelled⟩ := named
    by_cases halts : opcode = .halt ∧ operands = []
    · obtain ⟨rfl, rfl⟩ := halts
      rw [instructionLine, if_pos (isHalt_iff.mpr spelled)] at failed
      cases failed
    · rw [instructionLine_of_spelled spelled halts, instructionWord_eq_error_iff,
        instruction_eq_error_iff, mapM_register_eq_error_iff] at failed
      rcases failed with ⟨wrong, rfl⟩ | ⟨count, operand, bad, rfl⟩
      · exact .count spelled halts wrong
      · exact .register spelled count bad
  · rw [not_exists] at named
    rw [instructionLine_of_foreign named] at failed
    split at failed
    next alone =>
        obtain ⟨unread, rfl⟩ := constant_eq_error_iff_unread.mp failed
        rw [alone]
        exact .lone named unread
    next several =>
        cases failed
        exact .unknown named several

private theorem instructionLine_of_refused
    (refused : Refused .instructions found cause) :
    instructionLine found = .error cause := by
  cases refused with
  | whole placed illegal => exact absurd rfl placed
  | lone foreign unread =>
      rw [instructionLine_of_foreign foreign, if_pos rfl]
      exact constant_eq_error_iff_unread.mpr ⟨unread, rfl⟩
  | unknown foreign several =>
      rw [instructionLine_of_foreign foreign, if_neg several]
  | count spelled noHalt wrong =>
      rw [instructionLine_of_spelled spelled noHalt, instructionWord_eq_error_iff,
        instruction_eq_error_iff]
      exact .inl ⟨wrong, rfl⟩
  | @register mnemonic operand opcode operands spelled count bad =>
      have noHalt : ¬ (opcode = .halt ∧ operands = []) := by
        rintro ⟨rfl, rfl⟩
        cases count
      rw [instructionLine_of_spelled spelled noHalt, instructionWord_eq_error_iff,
        instruction_eq_error_iff, mapM_register_eq_error_iff]
      exact .inr ⟨count, operand, bad, rfl⟩

end Instructions

theorem Statement.word_eq_error_iff {statement : Statement}
    (present : statement.tokens ≠ []) :
    statement.word = .error cause ↔
      Refused statement.region statement.tokens cause := by
  obtain ⟨number, region, found⟩ := statement
  by_cases placed : region = .instructions
  · subst placed
    exact ⟨refused_of_instructionLine present, instructionLine_of_refused⟩
  · rw [word_eq_error_of_ne_instructions placed]
    constructor
    · rintro ⟨illegal, rfl⟩
      exact .whole placed illegal
    · intro refused
      cases refused with
      | whole _ illegal => exact ⟨illegal, rfl⟩
      | _ => exact absurd rfl placed

theorem illegal_iff_exists_refused (present : found ≠ []) :
    ¬ Legal region found ↔ ∃ cause, Refused region found cause := by
  rw [← @Statement.exists_word_eq_error_iff ⟨0, region, found⟩]
  exact exists_congr fun cause => Statement.word_eq_error_iff present

theorem Refused.unique {first second : AssemblyError} (present : found ≠ [])
    (refused : Refused region found first) (refused' : Refused region found second) :
    first = second := by
  have failed := (@Statement.word_eq_error_iff _ ⟨0, region, found⟩ present).mpr refused
  have failed' := (@Statement.word_eq_error_iff _ ⟨0, region, found⟩ present).mpr refused'
  exact Except.error.inj (failed.symm.trans failed')

end WordMachine.Assembly
