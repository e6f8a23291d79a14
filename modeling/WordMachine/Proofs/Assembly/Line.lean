import WordMachine.Assembly.Statement
import WordMachine.Proofs.Assembly.Literal
import WordMachine.Proofs.Traversal

namespace WordMachine.Assembly

/-! The grammar of a line by its region, and its agreement with the word that
the line is given. -/

inductive Content where
  | instruction (decoded : Instruction)
  | constant (word : Word)
  deriving DecidableEq, Repr

/-- An instruction fills the low twelve bits of its word, four for each field. -/
def Content.Occupies : Content → Word → Prop
  | .instruction ⟨opcode, target, operand⟩, word =>
      word.toNat = 256 * opcode.code.val + 16 * target.val + operand.val
  | .constant value, word => word = value

/-- How the tokens of a line are read in a region. No rule reads a line without
tokens. -/
inductive Reads : Region → List Text → Content → Prop
  | halt {token : Text} (spelled : token.lower = Opcode.halt.mnemonic) :
      Reads .instructions [token] (.instruction ⟨.halt, 0, 0⟩)
  | unary {mnemonic first : Text} {opcode : Opcode} {target : Register}
      (spelled : mnemonic.lower = opcode.mnemonic) (arity : opcode.arity = 1)
      (named : Names first target) :
      Reads .instructions [mnemonic, first] (.instruction ⟨opcode, target, 0⟩)
  | binary {mnemonic first second : Text} {opcode : Opcode}
      {target operand : Register}
      (spelled : mnemonic.lower = opcode.mnemonic) (arity : opcode.arity = 2)
      (named : Names first target) (named' : Names second operand) :
      Reads .instructions [mnemonic, first, second]
        (.instruction ⟨opcode, target, operand⟩)
  | lone {token : Text} {word : Word}
      (foreign : ∀ opcode : Opcode, token.lower ≠ opcode.mnemonic)
      (literal : Literal token word) :
      Reads .instructions [token] (.constant word)
  | constant {token : Text} {word : Word} (literal : Literal token word) :
      Reads .constant [token] (.constant word)
  | zero {token : Text} (spelled : token.lower = Opcode.halt.mnemonic) :
      Reads .data [token] (.constant 0)
  | datum {token : Text} {word : Word} (literal : Literal token word) :
      Reads .data [token] (.constant word)

/-- A line that stands for some content in its region. -/
def Legal (region : Region) (tokens : List Text) : Prop :=
  ∃ content, Reads region tokens content

def Prescribes (region : Region) (tokens : List Text) (word : Word) : Prop :=
  ∃ content, Reads region tokens content ∧ content.Occupies word

theorem Content.occupies_instruction_iff {decoded : Instruction} {word : Word} :
    (Content.instruction decoded).Occupies word ↔ word = decoded.encode := by
  rw [Occupies, ← Instruction.toNat_encode, BitVec.toNat_inj]

def Content.word : Content → Word
  | .instruction decoded => decoded.encode
  | .constant word => word

theorem Content.occupies_word (content : Content) :
    content.Occupies content.word := by
  cases content with
  | instruction decoded => exact occupies_instruction_iff.mpr rfl
  | constant word => rfl

theorem Content.exists_occupies (content : Content) :
    ∃ word, content.Occupies word :=
  ⟨content.word, content.occupies_word⟩

theorem Content.Occupies.unique {content : Content} {first second : Word}
    (held : content.Occupies first) (held' : content.Occupies second) :
    first = second := by
  cases content with
  | instruction decoded =>
      rw [occupies_instruction_iff] at held held'
      rw [held, held']
  | constant word => exact Eq.trans held (Eq.symm held')

@[simp] theorem isHalt_iff {token : Text} :
    isHalt token = true ↔ token.lower = Opcode.halt.mnemonic := by
  rw [isHalt, Text.sameLetters_iff]
  rfl

theorem ofMnemonic?_eq_none_iff {token : Text} :
    Opcode.ofMnemonic? token = none ↔
      ∀ opcode : Opcode, token.lower ≠ opcode.mnemonic := by
  constructor
  · intro unknown opcode spelled
    rw [Opcode.ofMnemonic?_eq_some_iff.mpr spelled] at unknown
    cases unknown
  · intro foreign
    cases found : Opcode.ofMnemonic? token with
    | none => rfl
    | some opcode =>
        exact absurd (Opcode.ofMnemonic?_eq_some_iff.mp found) (foreign opcode)

theorem register_eq_ok_iff {operand : Text} {found : Register} :
    register operand = .ok found ↔ Names operand found := by
  rw [← register?_eq_some_iff_names, register]
  cases register? operand with
  | none => simp
  | some other => simp

theorem constant_eq_ok_iff_literal {token : Text} {word : Word} :
    constant token = .ok word ↔ Literal token word := by
  rw [constant_eq_ok_iff, constant?_eq_some_iff_literal]

private theorem mapM_register_eq_ok_iff {operands : List Text}
    {registers : List Register} :
    operands.mapM register = .ok registers ↔
      List.Forall₂ Names operands registers := by
  simp only [mapM_eq_ok_iff_forall₂, register_eq_ok_iff]

/-- The registers of an accepted line are those its operands name, and a field
without an operand names register zero. -/
theorem instruction_eq_ok_iff {opcode : Opcode} {operands : List Text}
    {found : Instruction} :
    instruction opcode operands = .ok found ↔
      ∃ registers, operands.length = opcode.arity ∧
        List.Forall₂ Names operands registers ∧
          found = ⟨opcode, registers.getD 0 0, registers.getD 1 0⟩ := by
  unfold instruction
  simp only [← mapM_register_eq_ok_iff]
  by_cases count : operands.length = opcode.arity
  · rw [if_pos count]
    cases operands.mapM register with
    | error cause => simp
    | ok registers => simp [count, eq_comm]
  · simp [count]

theorem arity_eq_one_or_two (opcode : Opcode) :
    opcode.arity = 1 ∨ opcode.arity = 2 := by
  cases opcode <;> decide

private theorem reads_of_instruction {mnemonic : Text} {operands : List Text}
    {opcode : Opcode} {found : Instruction}
    (spelled : mnemonic.lower = opcode.mnemonic)
    (assembled : instruction opcode operands = .ok found) :
    Reads .instructions (mnemonic :: operands) (.instruction found) := by
  obtain ⟨registers, count, named, rfl⟩ := instruction_eq_ok_iff.mp assembled
  rcases arity_eq_one_or_two opcode with one | two
  · rw [one, List.length_eq_one_iff] at count
    obtain ⟨first, rfl⟩ := count
    obtain ⟨target, rest, head, tail, rfl⟩ :=
      List.forall₂_cons_left_iff.mp named
    cases tail
    exact .unary spelled one head
  · rw [two, List.length_eq_two] at count
    obtain ⟨first, second, rfl⟩ := count
    obtain ⟨target, rest, head, tail, rfl⟩ :=
      List.forall₂_cons_left_iff.mp named
    obtain ⟨operand, rest', head', tail', rfl⟩ :=
      List.forall₂_cons_left_iff.mp tail
    cases tail'
    exact .binary spelled two head head'

theorem instructionWord_eq_ok_iff {opcode : Opcode}
    {operands : List Text} {word : Word} :
    instructionWord opcode operands = .ok word ↔
      ∃ found, instruction opcode operands = .ok found ∧
        (Content.instruction found).Occupies word := by
  simp only [Content.occupies_instruction_iff]
  unfold instructionWord
  cases instruction opcode operands with
  | error cause => simp [Except.map]
  | ok found => simp [Except.map, eq_comm]

private theorem reads_of_instructionLine {tokens : List Text} {word : Word}
    (assembled : instructionLine tokens = .ok word) :
    Prescribes .instructions tokens word := by
  unfold instructionLine at assembled
  split at assembled
  next => cases assembled
  next token =>
      split at assembled
      next spelled =>
          cases assembled
          exact ⟨_, .halt (isHalt_iff.mp spelled), rfl⟩
      next =>
          split at assembled
          next opcode found =>
              obtain ⟨decoded, read, held⟩ :=
                instructionWord_eq_ok_iff.mp assembled
              exact ⟨_, reads_of_instruction
                (Opcode.ofMnemonic?_eq_some_iff.mp found) read, held⟩
          next unknown =>
              exact ⟨.constant word, .lone (ofMnemonic?_eq_none_iff.mp unknown)
                (constant_eq_ok_iff_literal.mp assembled), rfl⟩
  next mnemonic operands _ =>
      split at assembled
      next opcode found =>
          obtain ⟨decoded, read, held⟩ := instructionWord_eq_ok_iff.mp assembled
          exact ⟨_, reads_of_instruction
            (Opcode.ofMnemonic?_eq_some_iff.mp found) read, held⟩
      next => cases assembled

private theorem instructionLine_of_reads {tokens : List Text}
    {content : Content} {word : Word}
    (reads : Reads .instructions tokens content)
    (held : content.Occupies word) : instructionLine tokens = .ok word := by
  cases reads with
  | halt spelled =>
      rw [Content.occupies_instruction_iff] at held
      rw [instructionLine, if_pos (isHalt_iff.mpr spelled), held]
      rfl
  | @unary mnemonic first opcode target spelled arity named =>
      have read : instruction opcode [first] = .ok ⟨opcode, target, 0⟩ :=
        instruction_eq_ok_iff.mpr
          ⟨[target], arity.symm, .cons named .nil, rfl⟩
      simp only [instructionLine, Opcode.ofMnemonic?_eq_some_iff.mpr spelled]
      exact instructionWord_eq_ok_iff.mpr ⟨_, read, held⟩
  | @binary mnemonic first second opcode target operand spelled arity named
      named' =>
      have read : instruction opcode [first, second] =
          .ok ⟨opcode, target, operand⟩ :=
        instruction_eq_ok_iff.mpr
          ⟨[target, operand], arity.symm, .cons named (.cons named' .nil), rfl⟩
      simp only [instructionLine, Opcode.ofMnemonic?_eq_some_iff.mpr spelled]
      exact instructionWord_eq_ok_iff.mpr ⟨_, read, held⟩
  | @lone token value foreign literal =>
      have noHalt : ¬ isHalt token = true := fun spelled =>
        foreign .halt (isHalt_iff.mp spelled)
      rw [instructionLine, if_neg noHalt, ofMnemonic?_eq_none_iff.mpr foreign,
        show word = value from held]
      exact constant_eq_ok_iff_literal.mpr literal

theorem instructionLine_eq_ok_iff {tokens : List Text} {word : Word} :
    instructionLine tokens = .ok word ↔
      Prescribes .instructions tokens word :=
  ⟨reads_of_instructionLine, fun ⟨_, reads, held⟩ =>
    instructionLine_of_reads reads held⟩

theorem soleConstant_eq_ok_iff {tokens : List Text} {word : Word} :
    soleConstant tokens = .ok word ↔
      ∃ token, tokens = [token] ∧ Literal token word := by
  unfold soleConstant
  split
  next token => simp [constant_eq_ok_iff_literal]
  next several =>
      simp only [reduceCtorEq, false_iff, not_exists, not_and]
      exact fun token single => absurd single (several token)

theorem constantLine_eq_ok_iff {tokens : List Text} {word : Word} :
    soleConstant tokens = .ok word ↔
      Prescribes .constant tokens word := by
  rw [soleConstant_eq_ok_iff]
  constructor
  · intro sole
    obtain ⟨token, rfl, literal⟩ := sole
    exact ⟨.constant word, .constant literal, rfl⟩
  · intro prescribed
    obtain ⟨content, reads, held⟩ := prescribed
    cases reads with
    | @constant token value literal =>
        have same : word = value := held
        subst same
        exact ⟨token, rfl, literal⟩

theorem dataWord_eq_ok_iff {tokens : List Text} {word : Word} :
    dataWord tokens = .ok word ↔
      Prescribes .data tokens word := by
  constructor
  · intro assembled
    unfold dataWord at assembled
    split at assembled
    next token =>
        split at assembled
        next spelled =>
            cases assembled
            exact ⟨.constant 0, .zero (isHalt_iff.mp spelled), rfl⟩
        next =>
            exact ⟨.constant word,
              .datum (constant_eq_ok_iff_literal.mp assembled), rfl⟩
    next several =>
        obtain ⟨token, single, _⟩ := soleConstant_eq_ok_iff.mp assembled
        exact absurd single (several token)
  · intro prescribed
    obtain ⟨content, reads, held⟩ := prescribed
    cases reads with
    | zero spelled =>
        rw [dataWord, if_pos (isHalt_iff.mpr spelled), show word = 0 from held]
    | @datum token value literal =>
        have noHalt : ¬ isHalt token = true := fun spelled =>
          literal.lower_ne_halt (isHalt_iff.mp spelled)
        rw [dataWord, if_neg noHalt, show word = value from held]
        exact constant_eq_ok_iff_literal.mpr literal

/-- A statement has exactly the word that its line prescribes. -/
theorem Statement.word_eq_ok_iff {statement : Statement} {word : Word} :
    statement.word = .ok word ↔
      Prescribes statement.region statement.tokens word := by
  obtain ⟨line, region, tokens⟩ := statement
  cases region with
  | instructions => exact instructionLine_eq_ok_iff
  | constant => exact constantLine_eq_ok_iff
  | data => exact dataWord_eq_ok_iff

theorem Statement.locatedWord_eq_ok_iff {statement : Statement} {word : Word} :
    statement.locatedWord = .ok word ↔
      Prescribes statement.region statement.tokens word := by
  rw [locatedWord, mapError_eq_ok_iff, word_eq_ok_iff]

theorem Statement.locatedWord_eq_error_iff {statement : Statement}
    {error : SourceError} :
    statement.locatedWord = .error error ↔
      statement.word = .error error.cause ∧ error.line = statement.line := by
  rw [locatedWord, mapError_eq_error_iff]
  constructor
  · rintro ⟨cause, failed, rfl⟩
    exact ⟨failed, rfl⟩
  · rintro ⟨failed, line⟩
    exact ⟨error.cause, failed, by rw [← line]⟩

theorem Prescribes.unique {region : Region} {tokens : List Text}
    {first second : Word} (prescribed : Prescribes region tokens first)
    (prescribed' : Prescribes region tokens second) : first = second := by
  have computed : Statement.word ⟨0, region, tokens⟩ = .ok first :=
    Statement.word_eq_ok_iff.mpr prescribed
  have computed' : Statement.word ⟨0, region, tokens⟩ = .ok second :=
    Statement.word_eq_ok_iff.mpr prescribed'
  exact Except.ok.inj (computed.symm.trans computed')

theorem Prescribes.iff_eq {region : Region} {tokens : List Text} {word : Word}
    (prescribed : Prescribes region tokens word) (other : Word) :
    Prescribes region tokens other ↔ other = word := by
  constructor
  · intro prescribed'
    exact prescribed'.unique prescribed
  · intro same
    rw [same]
    exact prescribed

theorem legal_iff_exists_prescribes {region : Region} {tokens : List Text} :
    Legal region tokens ↔ ∃ word, Prescribes region tokens word := by
  constructor
  · intro legal
    obtain ⟨content, reads⟩ := legal
    obtain ⟨word, held⟩ := content.exists_occupies
    exact ⟨word, content, reads, held⟩
  · intro prescribed
    obtain ⟨word, content, reads, held⟩ := prescribed
    exact ⟨content, reads⟩

end WordMachine.Assembly
