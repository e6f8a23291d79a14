import Mathlib.Algebra.Ring.Int.Defs
import WordMachine.Proofs.Program.HexText

namespace WordMachine.Assembly

open Numeral

/-! Which tokens are constants, and the numbers that their words have as values. -/

/-- Constants with their values. A constant without a sign has all thirty-two bits
for its digits, and the upper half of them stands for the negative numbers. -/
inductive Valued : Text → Int → Prop
  | unsigned {mark digits : Text} {magnitude : Nat} (marked : Mark mark)
      (denotes : Denotes 16 hexDigit? digits magnitude)
      (bound : magnitude ≤ 2 ^ 32 - 1) :
      Valued (mark ++ digits)
        (if magnitude < 2 ^ 31 then magnitude else magnitude - 2 ^ 32)
  | negative {mark digits : Text} {magnitude : Nat} (marked : Mark mark)
      (denotes : Denotes 16 hexDigit? digits magnitude)
      (bound : magnitude ≤ 2 ^ 31) :
      Valued ('-' :: (mark ++ digits)) (-magnitude)

private theorem value_ofNat {magnitude : Nat} (bound : magnitude < 2 ^ 32) :
    Word.value (BitVec.ofNat 32 magnitude) =
      if magnitude < 2 ^ 31 then (magnitude : Int) else magnitude - 2 ^ 32 := by
  have same : (BitVec.ofNat 32 magnitude).toNat = magnitude := by
    rw [BitVec.toNat_ofNat, Nat.mod_eq_of_lt bound]
  rw [Word.value, BitVec.toInt_eq_toNat_cond, same]
  split
  next small => rw [if_pos (by omega)]
  next large =>
      rw [if_neg (by omega)]
      rfl

private theorem value_ofValue_neg {magnitude : Nat} (bound : magnitude ≤ 2 ^ 31) :
    Word.value (Word.ofValue (-magnitude)) = -magnitude := by
  rw [Word.value, Word.ofValue]
  exact BitVec.toInt_ofInt_eq_self (by decide) (by omega) (by omega)

private theorem valued_iff_literal {token : Text} {value : Int} :
    Valued token value ↔ ∃ word, Literal token word ∧ word.value = value := by
  constructor
  · intro valued
    cases valued with
    | @unsigned mark digits magnitude marked denotes bound =>
        have bound' : magnitude < 2 ^ 32 := by omega
        exact ⟨_, .unsigned marked denotes bound', value_ofNat bound'⟩
    | negative marked denotes bound =>
        exact ⟨_, .negative marked denotes bound, value_ofValue_neg bound⟩
  · rintro ⟨word, literal, rfl⟩
    cases literal with
    | unsigned marked denotes bound =>
        rw [value_ofNat bound]
        exact .unsigned marked denotes (Nat.le_pred_of_lt bound)
    | negative marked denotes bound =>
        rw [value_ofValue_neg bound]
        exact .negative marked denotes bound

theorem literal_hex (word : Word) : Literal word.hex word :=
  .of_denotes word.denotes_hex

/-- A token is a constant exactly if it is a literal in range, and its word has the
value of the literal. Any other token is refused as it stands. The digits of every
word, all eight or without leading zeros, are a constant for that word. -/
theorem constants_are_literals_in_range (token : Text) :
    (∀ value, Valued token value ↔
      ∃ word, constant token = .ok word ∧ word.value = value) ∧
    (∀ error, constant token = .error error ↔
      (∀ value, ¬ Valued token value) ∧ error = .invalidConstant token) ∧
    ∀ word : Word, constant word.hex8 = .ok word ∧ constant word.hex = .ok word := by
  have valued (value : Int) : Valued token value ↔
      ∃ word, constant token = .ok word ∧ word.value = value := by
    simp only [valued_iff_literal, constant_eq_ok_iff_literal]
  refine ⟨valued, ?_, ?_⟩
  · intro error
    rw [constant_eq_error_iff]
    refine and_congr_left fun _ => ?_
    constructor
    · intro unread value value'
      obtain ⟨word, read, _⟩ := (valued value).mp value'
      rw [constant_eq_ok_iff, unread] at read
      cases read
    · intro outside
      cases read : constant? token with
      | none => rfl
      | some word =>
          have value := (valued word.value).mpr ⟨word, constant_eq_ok_iff.mpr read, rfl⟩
          exact absurd value (outside word.value)
  · intro word
    exact ⟨constant_hex8 word, constant_eq_ok_iff_literal.mpr (literal_hex word)⟩

end WordMachine.Assembly
