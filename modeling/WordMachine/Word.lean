import WordMachine.Text.Numeral

namespace WordMachine

/-! A word is thirty-two bits. Arithmetic wraps, and the value of a word is its
signed reading. -/

abbrev Word := BitVec 32

namespace Word

def value (word : Word) : Int :=
  word.toInt

def ofValue (value : Int) : Word :=
  BitVec.ofInt 32 value

/-- The eight hexadecimal digits of a word, most significant first. -/
def hex8 (word : Word) : Text :=
  [7, 6, 5, 4, 3, 2, 1, 0].map fun place =>
    Numeral.hexDigit (word.toNat / Nat.pow 16 place % 16)

/-- The hexadecimal digits of a word without leading zeros. -/
def hex (word : Word) : Text :=
  match word.hex8.dropWhile (· == '0') with
  | [] => ['0']
  | digits => digits

@[simp] theorem length_hex8 (word : Word) : word.hex8.length = 8 := by
  simp [hex8]

/-- All eight digits behind the mark of a hexadecimal literal. -/
def literal (word : Word) : String :=
  "0x" ++ String.ofList word.hex8

end Word

end WordMachine
