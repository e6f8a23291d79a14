import WordMachine.Assembly.Constant
import WordMachine.Assembly.Operand
import WordMachine.Proofs.Text.Numeral

namespace WordMachine.Assembly

open Numeral

/-! The grammar of the two kinds of token that stand for a value: hexadecimal
constants, and decimal names of registers. -/

inductive Mark : Text → Prop
  | absent : Mark []
  | lower : Mark ['0', 'x']
  | upper : Mark ['0', 'X']

inductive Literal : Text → Word → Prop
  | unsigned {mark digits : Text} {magnitude : Nat} (marked : Mark mark)
      (denotes : Denotes 16 hexDigit? digits magnitude)
      (bound : magnitude < 2 ^ 32) :
      Literal (mark ++ digits) (BitVec.ofNat 32 magnitude)
  | negative {mark digits : Text} {magnitude : Nat} (marked : Mark mark)
      (denotes : Denotes 16 hexDigit? digits magnitude)
      (bound : magnitude ≤ 2 ^ 31) :
      Literal ('-' :: (mark ++ digits)) (Word.ofValue (-(magnitude : Int)))

theorem Literal.of_denotes {digits : Text} {word : Word}
    (denotes : Denotes 16 hexDigit? digits word.toNat) : Literal digits word := by
  have literal := Literal.unsigned .absent denotes word.isLt
  rwa [List.nil_append, BitVec.ofNat_toNat, BitVec.setWidth_eq] at literal

inductive Names : Text → Register → Prop
  | bare {digits : Text} {register : Register}
      (denotes : Denotes 10 decimalDigit? digits register.val) :
      Names digits register
  | plus {digits : Text} {register : Register}
      (denotes : Denotes 10 decimalDigit? digits register.val) :
      Names ('+' :: digits) register
  | minus {digits : Text} (denotes : Denotes 10 decimalDigit? digits 0) :
      Names ('-' :: digits) 0

private theorem dropMark_of_denotes {digits : Text} {magnitude : Nat}
    (denotes : Denotes 16 hexDigit? digits magnitude) :
    dropMark digits = digits := by
  unfold dropMark
  split
  · exact absurd rfl (denotes.digit_ne_none
      (List.mem_cons_of_mem _ List.mem_cons_self))
  · exact absurd rfl (denotes.digit_ne_none
      (List.mem_cons_of_mem _ List.mem_cons_self))
  · rfl

theorem hexadecimal?_dropMark_eq_some_iff {text : Text} {magnitude : Nat} :
    hexadecimal? (dropMark text) = some magnitude ↔
      ∃ mark digits, Mark mark ∧ text = mark ++ digits ∧
        Denotes 16 hexDigit? digits magnitude := by
  rw [hexadecimal?_eq_some_iff]
  constructor
  · intro denotes
    unfold dropMark at denotes
    split at denotes
    · exact ⟨['0', 'x'], _, .lower, rfl, denotes⟩
    · exact ⟨['0', 'X'], _, .upper, rfl, denotes⟩
    · exact ⟨[], _, .absent, rfl, denotes⟩
  · intro parts
    obtain ⟨mark, digits, marked, rfl, denotes⟩ := parts
    cases marked with
    | absent => simpa [dropMark_of_denotes denotes] using denotes
    | lower => exact denotes
    | upper => exact denotes

private theorem literal_of_constant? {token : Text} {word : Word}
    (read : constant? token = some word) : Literal token word := by
  unfold constant? at read
  split at read
  · split at read
    next magnitude found =>
      obtain ⟨mark, digits, marked, rfl, denotes⟩ :=
        hexadecimal?_dropMark_eq_some_iff.mp found
      split at read
      next bound =>
        cases read
        exact .negative marked denotes bound
      next => cases read
    next => cases read
  · split at read
    next magnitude found =>
      obtain ⟨mark, digits, marked, rfl, denotes⟩ :=
        hexadecimal?_dropMark_eq_some_iff.mp found
      split at read
      next bound =>
        cases read
        exact .unsigned marked denotes bound
      next => cases read
    next => cases read

private theorem hexDigit?_ne_none_of_unsigned {mark digits rest : Text}
    {c : Char} {magnitude : Nat} (marked : Mark mark)
    (denotes : Denotes 16 hexDigit? digits magnitude)
    (begins : mark ++ digits = c :: rest) : hexDigit? c ≠ none := by
  cases marked with
  | absent =>
      rw [List.nil_append] at begins
      subst begins
      exact denotes.digit_ne_none List.mem_cons_self
  | lower =>
      cases begins
      decide
  | upper =>
      cases begins
      decide

private theorem constant?_of_literal {token : Text} {word : Word}
    (literal : Literal token word) : constant? token = some word := by
  cases literal with
  | @unsigned mark digits magnitude marked denotes bound =>
      have found : hexadecimal? (dropMark (mark ++ digits)) = some magnitude :=
        hexadecimal?_dropMark_eq_some_iff.mpr
          ⟨mark, digits, marked, rfl, denotes⟩
      unfold constant?
      split
      next unsigned begins =>
        exact absurd rfl
          (hexDigit?_ne_none_of_unsigned marked denotes begins)
      next =>
        simp only [found]
        exact if_pos bound
  | @negative mark digits magnitude marked denotes bound =>
      have found : hexadecimal? (dropMark (mark ++ digits)) = some magnitude :=
        hexadecimal?_dropMark_eq_some_iff.mpr
          ⟨mark, digits, marked, rfl, denotes⟩
      simp only [constant?, found]
      exact if_pos bound

theorem constant?_eq_some_iff_literal {token : Text} {word : Word} :
    constant? token = some word ↔ Literal token word :=
  ⟨literal_of_constant?, constant?_of_literal⟩

/-- No constant spells `halt`, since `h` is neither a digit nor a sign. -/
theorem Literal.lower_ne_halt {token : Text} {word : Word}
    (literal : Literal token word) :
    token.lower ≠ Opcode.halt.mnemonic := by
  intro same
  cases token with
  | nil => cases same
  | cons c rest =>
      have first : c.toLower = 'h' := by
        simpa [Opcode.mnemonic] using (List.cons.inj same).1
      have noDigit : hexDigit? c = none := by
        rw [← hexDigit?_toLower, first]
        rfl
      generalize whole : c :: rest = token at literal
      cases literal with
      | unsigned marked denotes bound =>
          exact hexDigit?_ne_none_of_unsigned marked denotes whole.symm noDigit
      | negative marked denotes bound =>
          cases whole
          exact absurd first (by decide)

private theorem register?_eq_some_iff {operand : Text} {register : Register} :
    register? operand = some register ↔
      signed? operand = some (register.val : Int) := by
  unfold register?
  cases signed? operand with
  | none => simp
  | some value =>
      simp only [Option.some.injEq]
      constructor
      · intro found
        split at found
        next nonnegative =>
          unfold Register.ofIndex? at found
          split at found
          · cases found
            simp only
            omega
          · cases found
        next => cases found
      · intro same
        subst same
        simp

theorem names_iff_signed {operand : Text} {register : Register} :
    Names operand register ↔ Signed operand (register.val : Int) := by
  constructor
  · intro names
    cases names with
    | bare denotes => exact .bare denotes
    | plus denotes => exact .plus denotes
    | minus denotes => exact .minus denotes
  · intro spelled
    generalize number : (register.val : Int) = value at spelled
    cases spelled with
    | bare denotes =>
        rw [Int.natCast_inj] at number
        subst number
        exact .bare denotes
    | plus denotes =>
        rw [Int.natCast_inj] at number
        subst number
        exact .plus denotes
    | @minus digits magnitude denotes =>
        have zero : magnitude = 0 := by omega
        have first : register = 0 := Fin.ext (by simp only [Fin.val_zero]; omega)
        subst zero first
        exact .minus denotes

theorem register?_eq_some_iff_names {operand : Text} {register : Register} :
    register? operand = some register ↔ Names operand register := by
  rw [register?_eq_some_iff, signed?_eq_some_iff, names_iff_signed]

end WordMachine.Assembly
