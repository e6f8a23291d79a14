import WordMachine.Assembly.Error
import WordMachine.Word

namespace WordMachine.Assembly

/-! A constant is written in hexadecimal digits behind an optional minus sign
and an optional mark. Without a sign it spans all words, so every dumped word
reads back. -/

def dropMark : Text → Text
  | '0' :: 'x' :: digits => digits
  | '0' :: 'X' :: digits => digits
  | digits => digits

def constant? : Text → Option Word
  | '-' :: unsigned =>
      match Numeral.hexadecimal? (dropMark unsigned) with
      | some magnitude =>
          if magnitude ≤ Nat.pow 2 31 then
            some (Word.ofValue (-(magnitude : Int)))
          else none
      | none => none
  | unsigned =>
      match Numeral.hexadecimal? (dropMark unsigned) with
      | some magnitude =>
          if magnitude < Nat.pow 2 32 then some (BitVec.ofNat 32 magnitude) else none
      | none => none

def constant (token : Text) : Except AssemblyError Word :=
  match constant? token with
  | some word => .ok word
  | none => .error (.invalidConstant token)

theorem constant_eq_ok_iff {token : Text} {word : Word} :
    constant token = .ok word ↔ constant? token = some word := by
  unfold constant
  cases constant? token with
  | none => simp
  | some found => simp

theorem constant_eq_error_iff {token : Text} {error : AssemblyError} :
    constant token = .error error ↔
      constant? token = none ∧ error = .invalidConstant token := by
  unfold constant
  cases constant? token with
  | none => simp [eq_comm]
  | some found => simp

end WordMachine.Assembly
