import WordMachine.Text.Basic

namespace WordMachine

/-! Reading numerals. A numeral has at least one digit and any number of
leading zeros, and its value is not bounded here. -/

namespace Numeral

def decimalDigit? (c : Char) : Option Nat :=
  if '0' ≤ c ∧ c ≤ '9' then some (c.toNat - '0'.toNat) else none

def hexDigit? (c : Char) : Option Nat :=
  if '0' ≤ c ∧ c ≤ '9' then some (c.toNat - '0'.toNat)
  else if 'a' ≤ c ∧ c ≤ 'f' then some (c.toNat - 'a'.toNat + 10)
  else if 'A' ≤ c ∧ c ≤ 'F' then some (c.toNat - 'A'.toNat + 10)
  else none

def ofDigits (base : Nat) (digits : List Nat) : Nat :=
  digits.foldl (fun value digit => base * value + digit) 0

@[simp] theorem ofDigits_nil (base : Nat) : ofDigits base [] = 0 := rfl

@[simp] theorem ofDigits_append_singleton (base : Nat) (digits : List Nat)
    (digit : Nat) :
    ofDigits base (digits ++ [digit]) = base * ofDigits base digits + digit := by
  simp [ofDigits]

def digits? (digit? : Char → Option Nat) (text : Text) : Option (List Nat) :=
  if text.isEmpty then none else text.mapM digit?

def decimal? (text : Text) : Option Nat :=
  (digits? decimalDigit? text).map (ofDigits 10)

def hexadecimal? (text : Text) : Option Nat :=
  (digits? hexDigit? text).map (ofDigits 16)

/-- A decimal numeral that may carry a plus sign. -/
def unsigned? : Text → Option Nat
  | '+' :: rest => decimal? rest
  | text => decimal? text

/-- A decimal numeral that may carry a plus or a minus sign. -/
def signed? : Text → Option Int
  | '+' :: rest => (decimal? rest).map fun magnitude : Nat => (magnitude : Int)
  | '-' :: rest => (decimal? rest).map fun magnitude : Nat => -(magnitude : Int)
  | text => (decimal? text).map fun magnitude : Nat => (magnitude : Int)

/-- The numerals that count something on a machine with sixty-four bit
sizes. -/
def size? (text : Text) : Option Nat :=
  (unsigned? text).filter fun value => value < Nat.pow 2 64

def hexDigit (value : Nat) : Char :=
  if value < 10 then Char.ofNat ('0'.toNat + value)
  else Char.ofNat ('a'.toNat + (value - 10))

theorem hexDigit?_hexDigit {value : Nat} (bound : value < 16) :
    hexDigit? (hexDigit value) = some value := by
  have each : ∀ value : Fin 16, hexDigit? (hexDigit value) = some value.val := by
    decide
  exact each ⟨value, bound⟩

end Numeral

end WordMachine
