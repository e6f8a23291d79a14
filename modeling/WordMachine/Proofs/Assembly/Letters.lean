import WordMachine.Proofs.Assembly.Line

namespace WordMachine

/-! Every reader of the assembler takes the two cases of an ASCII letter for the
same letter, so folding the case of a line changes neither its word nor what is
wrong with it. -/

namespace Text

variable {text : Text}

theorem toLower_cases (c : Char) :
    (65 ≤ c.toNat ∧ c.toNat ≤ 90 ∧ c.toLower.toNat = c.toNat + 32) ∨
      (¬ (65 ≤ c.toNat ∧ c.toNat ≤ 90) ∧ c.toLower = c) := by
  unfold Char.toLower
  split
  next upper =>
      have range : 65 ≤ c.toNat ∧ c.toNat ≤ 90 := upper
      refine .inl ⟨range.1, range.2, ?_⟩
      change (c.val + 32).toNat = c.toNat + 32
      rw [UInt32.toNat_add]
      change (c.toNat + 32) % 2 ^ 32 = c.toNat + 32
      omega
  next other => exact .inr ⟨other, rfl⟩

private theorem toLower_toLower (c : Char) : c.toLower.toLower = c.toLower := by
  rcases toLower_cases c with ⟨low, high, place⟩ | ⟨_, same⟩
  · rcases toLower_cases c.toLower with ⟨_, high', _⟩ | ⟨_, same⟩
    · omega
    · exact same
  · rw [same, same]

/-- Folding turns letters into letters, so it neither makes nor removes any other
character. -/
theorem toLower_eq_iff {c d : Char} (caseless : d.isAlpha = false) :
    c.toLower = d ↔ c = d := by
  have other : ¬ (65 ≤ d.toNat ∧ d.toNat ≤ 90) ∧
      ¬ (97 ≤ d.toNat ∧ d.toNat ≤ 122) := by
    obtain ⟨upper, lower⟩ := Bool.or_eq_false_iff.mp
      (show (d.isUpper || d.isLower) = false from caseless)
    refine ⟨of_decide_eq_false upper, ?_⟩
    rintro ⟨low, high⟩
    have letter : d.isLower = true :=
      Bool.and_eq_true_iff.mpr ⟨decide_eq_true low, decide_eq_true high⟩
    rw [lower] at letter
    cases letter
  rcases toLower_cases c with ⟨low, high, place⟩ | ⟨_, same⟩
  · constructor
    · rintro rfl
      omega
    · rintro rfl
      omega
  · rw [same]

@[simp] theorem lower_lower (text : Text) : text.lower.lower = text.lower := by
  rw [lower, lower, List.map_map]
  exact List.map_congr_left fun c _ => toLower_toLower c

theorem lower_eq_cons_iff {d : Char} {rest : Text} (caseless : d.isAlpha = false) :
    text.lower = d :: rest ↔ ∃ tail : Text, text = d :: tail ∧ tail.lower = rest := by
  rw [lower, List.map_eq_cons_iff]
  constructor
  · rintro ⟨c, tail, rfl, same, folded⟩
    rw [toLower_eq_iff caseless] at same
    subst same
    exact ⟨tail, rfl, folded⟩
  · rintro ⟨tail, rfl, folded⟩
    exact ⟨d, tail, rfl, (toLower_eq_iff caseless).mpr rfl, folded⟩

theorem mem_lower_iff {c : Char} (caseless : c.isAlpha = false) :
    c ∈ text.lower ↔ c ∈ text := by
  simp only [lower, List.mem_map, toLower_eq_iff caseless, exists_eq_right]

private theorem lower_unwords (pieces : List Text) :
    (unwords pieces).lower = unwords (pieces.map lower) := by
  induction pieces with
  | nil => rfl
  | cons piece rest induction =>
      by_cases empty : rest = []
      · subst empty
        simp [unwords, List.intercalate]
      · have present : rest.map lower ≠ [] := by simpa using empty
        rw [List.map_cons, unwords, unwords, List.intercalate_cons_of_ne_nil empty,
          List.intercalate_cons_of_ne_nil present, lower_append, lower_append]
        exact congrArg (_ ++ [' '] ++ ·) induction

end Text

namespace Numeral

variable {digit? : Char → Option Nat} {text : Text}

private theorem decimalDigit?_toLower (c : Char) :
    decimalDigit? c.toLower = decimalDigit? c := by
  rcases Text.toLower_cases c with ⟨low, high, place⟩ | ⟨_, same⟩
  · have beyond : ∀ {d : Char}, 57 < d.toNat → decimalDigit? d = none := by
      intro d large
      refine if_neg ?_
      rintro ⟨_, small⟩
      have bound : d.toNat ≤ 57 := small
      omega
    rw [beyond (by omega), beyond (by omega)]
  · rw [same]

private theorem digits?_lower (folds : ∀ c, digit? c.toLower = digit? c) (text : Text) :
    digits? digit? text.lower = digits? digit? text := by
  have same : digit? ∘ Char.toLower = digit? := funext folds
  rw [digits?, digits?, Text.lower, List.isEmpty_map, List.mapM_map, same]

theorem decimal?_lower (text : Text) : decimal? text.lower = decimal? text := by
  rw [decimal?, digits?_lower decimalDigit?_toLower, decimal?]

private theorem hexadecimal?_lower (text : Text) :
    hexadecimal? text.lower = hexadecimal? text := by
  rw [hexadecimal?, digits?_lower hexDigit?_toLower, hexadecimal?]

private theorem signed?_lower (text : Text) : signed? text.lower = signed? text := by
  unfold signed?
  split
  next rest spelled =>
      obtain ⟨tail, rfl, rfl⟩ := (Text.lower_eq_cons_iff rfl).mp spelled
      rw [decimal?_lower]
      rfl
  next rest spelled =>
      obtain ⟨tail, rfl, rfl⟩ := (Text.lower_eq_cons_iff rfl).mp spelled
      rw [decimal?_lower]
      rfl
  next noPlus noMinus =>
      rw [decimal?_lower]
      split
      next tail => exact absurd rfl (noPlus (Text.lower tail))
      next tail => exact absurd rfl (noMinus (Text.lower tail))
      next => rfl

end Numeral

namespace AssemblyError

/-- An error up to the case of the letters that it quotes. -/
def lower : AssemblyError → AssemblyError
  | .unknownMnemonic token => .unknownMnemonic token.lower
  | .argumentCount opcode found => .argumentCount opcode found
  | .registerRange operand => .registerRange operand.lower
  | .invalidConstant token => .invalidConstant token.lower
  | .unscanned line => .unscanned line.lower

end AssemblyError

namespace Assembly

open Numeral

theorem toLower_eq_x_iff {c : Char} : c.toLower = 'x' ↔ c = 'x' ∨ c = 'X' := by
  constructor
  · intro folded
    rcases Text.toLower_cases c with ⟨_, _, place⟩ | ⟨_, same⟩
    · rw [folded] at place
      have code : c.toNat = 'X'.toNat := by
        change c.toNat = 88
        change 120 = c.toNat + 32 at place
        omega
      exact .inr (Char.toNat_inj.mp code)
    · exact .inl (same.symm.trans folded)
  · rintro (rfl | rfl)
    · rfl
    · rfl

private theorem dropMark_lower (text : Text) :
    dropMark text.lower = (dropMark text).lower := by
  conv =>
    lhs
    unfold dropMark
  split
  next digits spelled =>
      obtain ⟨tail, rfl, marked⟩ := (Text.lower_eq_cons_iff rfl).mp spelled
      obtain ⟨c, rest, rfl, letter, rfl⟩ := List.map_eq_cons_iff.mp marked
      rcases toLower_eq_x_iff.mp letter with rfl | rfl
      · rfl
      · rfl
  next digits spelled =>
      obtain ⟨tail, rfl, marked⟩ := (Text.lower_eq_cons_iff rfl).mp spelled
      obtain ⟨c, rest, rfl, letter, rfl⟩ := List.map_eq_cons_iff.mp marked
      have folded := Text.toLower_toLower c
      rw [letter] at folded
      exact absurd folded (by decide)
  next noLower noUpper =>
      unfold dropMark
      split
      next digits => exact absurd rfl (noLower (Text.lower digits))
      next digits => exact absurd rfl (noLower (Text.lower digits))
      next => rfl

private theorem constant?_lower (token : Text) :
    constant? token.lower = constant? token := by
  by_cases signed : ∃ unsigned, token = '-' :: unsigned
  · obtain ⟨unsigned, rfl⟩ := signed
    have folded : Text.lower ('-' :: unsigned) = '-' :: Text.lower unsigned := rfl
    rw [folded, constant?, constant?, dropMark_lower, hexadecimal?_lower]
  · rw [constant?, constant?, dropMark_lower, hexadecimal?_lower]
    · exact fun unsigned same => signed ⟨unsigned, same⟩
    · intro unsigned same
      obtain ⟨tail, rfl, _⟩ := (Text.lower_eq_cons_iff rfl).mp same
      exact signed ⟨tail, rfl⟩

theorem constant_lower (token : Text) :
    constant token.lower = (constant token).mapError AssemblyError.lower := by
  unfold constant
  rw [constant?_lower]
  cases constant? token with
  | none => rfl
  | some word => rfl

private theorem register_lower (operand : Text) :
    register operand.lower = (register operand).mapError AssemblyError.lower := by
  have same : register? operand.lower = register? operand := by
    rw [register?, signed?_lower, register?]
  unfold register
  rw [same]
  cases register? operand with
  | none => rfl
  | some found => rfl

theorem isHalt_lower (token : Text) : isHalt token.lower = isHalt token := by
  rw [isHalt, isHalt, Text.sameLetters, Text.sameLetters, Text.lower_lower]

private theorem ofMnemonic?_lower (token : Text) :
    Opcode.ofMnemonic? token.lower = Opcode.ofMnemonic? token := by
  rw [Opcode.ofMnemonic?, Text.lower_lower, Opcode.ofMnemonic?]

private theorem instruction_lower (opcode : Opcode) (operands : List Text) :
    instruction opcode (operands.map Text.lower) =
      (instruction opcode operands).mapError AssemblyError.lower := by
  have traversal : (operands.map Text.lower).mapM register =
      (operands.mapM register).mapError AssemblyError.lower := by
    induction operands with
    | nil => rfl
    | cons operand rest induction =>
        rw [List.map_cons, List.mapM_cons, List.mapM_cons, register_lower, induction]
        cases register operand with
        | error cause => rfl
        | ok found => cases rest.mapM register <;> rfl
  rw [instruction, instruction, traversal, List.length_map]
  split
  · cases operands.mapM register with
    | error cause => rfl
    | ok registers => rfl
  · rfl

private theorem instructionWord_lower (opcode : Opcode) (operands : List Text) :
    instructionWord opcode (operands.map Text.lower) =
      (instructionWord opcode operands).mapError AssemblyError.lower := by
  rw [instructionWord, instructionWord, instruction_lower]
  cases instruction opcode operands with
  | error cause => rfl
  | ok found => rfl

theorem soleConstant_lower (found : List Text) :
    soleConstant (found.map Text.lower) =
      (soleConstant found).mapError AssemblyError.lower := by
  match found with
  | [] => rfl
  | [token] => exact constant_lower token
  | first :: second :: rest =>
      have joined := Text.lower_unwords (first :: second :: rest)
      exact congrArg (Except.error ∘ AssemblyError.invalidConstant) joined.symm

private theorem dataWord_lower (found : List Text) :
    dataWord (found.map Text.lower) =
      (dataWord found).mapError AssemblyError.lower := by
  match found with
  | [] => exact soleConstant_lower []
  | [token] =>
      rw [List.map_singleton, dataWord, dataWord, isHalt_lower, constant_lower]
      split
      · rfl
      · rfl
  | first :: second :: rest => exact soleConstant_lower (first :: second :: rest)

private theorem instructionLine_lower (found : List Text) :
    instructionLine (found.map Text.lower) =
      (instructionLine found).mapError AssemblyError.lower := by
  match found with
  | [] => exact soleConstant_lower []
  | [token] =>
      rw [List.map_singleton, instructionLine, instructionLine, isHalt_lower,
        ofMnemonic?_lower, constant_lower]
      split
      · rfl
      · cases Opcode.ofMnemonic? token with
        | none => rfl
        | some opcode => exact instructionWord_lower opcode []
  | mnemonic :: first :: rest =>
      rw [List.map_cons, List.map_cons, instructionLine, instructionLine,
        ofMnemonic?_lower]
      · cases Opcode.ofMnemonic? mnemonic with
        | none => rfl
        | some opcode => exact instructionWord_lower opcode (first :: rest)
      · exact List.cons_ne_nil first rest
      · exact List.cons_ne_nil first.lower (rest.map Text.lower)

theorem word_lower (line : Nat) (region : Region) (found : List Text) :
    Statement.word ⟨line, region, found.map Text.lower⟩ =
      (Statement.word ⟨line, region, found⟩).mapError AssemblyError.lower := by
  cases region with
  | instructions => exact instructionLine_lower found
  | constant => exact soleConstant_lower found
  | data => exact dataWord_lower found

private theorem endsInstructions_lower (found : List Text) :
    endsInstructions (found.map Text.lower) = endsInstructions found := by
  match found with
  | [] => rfl
  | [token] => exact isHalt_lower token
  | _ :: _ :: _ => rfl

private theorem awaitsConstant_lower (found : List Text) :
    awaitsConstant (found.map Text.lower) = awaitsConstant found := by
  cases found with
  | nil => rfl
  | cons mnemonic operands =>
      rw [List.map_cons, awaitsConstant, awaitsConstant, Text.sameLetters,
        Text.sameLetters, Text.lower_lower]

theorem after_lower (region : Region) (found : List Text) :
    region.after (found.map Text.lower) = region.after found := by
  cases region with
  | instructions =>
      rw [Region.after, Region.after, endsInstructions_lower, awaitsConstant_lower]
  | constant => rfl
  | data => rfl

end Assembly

end WordMachine
