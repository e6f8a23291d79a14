import WordMachine.Text.Basic

namespace WordMachine

/-! Texts as bytes in UTF-8. -/

abbrev Bytes := List UInt8

def Text.encode (text : Text) : Bytes :=
  text.flatMap String.utf8EncodeChar

def Bytes.decode? (bytes : Bytes) : Option Text :=
  bytes.toByteArray.utf8Decode?.map Array.toList

namespace Bytes

/-- What a character with this first byte goes on with: the least and the greatest
second byte, and how many bytes follow that. -/
def lead? (byte : UInt8) : Option (UInt8 × UInt8 × Nat) :=
  if 0xC2 ≤ byte ∧ byte ≤ 0xDF then some (0x80, 0xBF, 0)
  else if byte = 0xE0 then some (0xA0, 0xBF, 1)
  else if byte = 0xED then some (0x80, 0x9F, 1)
  else if 0xE1 ≤ byte ∧ byte ≤ 0xEF then some (0x80, 0xBF, 1)
  else if byte = 0xF0 then some (0x90, 0xBF, 2)
  else if 0xF1 ≤ byte ∧ byte ≤ 0xF3 then some (0x80, 0xBF, 2)
  else if byte = 0xF4 then some (0x80, 0x8F, 2)
  else none

/-- The bytes that belong to one character with the byte before them, as far as
they go. -/
def behind (first : UInt8) (bytes : Bytes) : Bytes :=
  match lead? first, bytes with
  | some (least, greatest, more), second :: rest =>
      if least ≤ second ∧ second ≤ greatest then
        second :: (rest.take more).takeWhile fun byte => 0x80 ≤ byte && byte ≤ 0xBF
      else []
  | _, _ => []

def replacement : Char := '\uFFFD'

/-- The text with a replacement for every part that is no character. -/
def repaired : Bytes → Text
  | [] => []
  | first :: rest =>
      let others := behind first rest
      (decode? (first :: others)).getD [replacement] ++
        repaired (rest.drop others.length)
termination_by bytes => bytes.length
decreasing_by
  rw [List.length_drop, List.length_cons]
  omega

def lossy (bytes : Bytes) : Text :=
  (decode? bytes).getD bytes.repaired

end Bytes

@[simp] theorem Text.encode_nil : Text.encode [] = [] := rfl

@[simp] theorem Text.encode_append (front back : Text) :
    Text.encode (front ++ back) = front.encode ++ back.encode :=
  List.flatMap_append

theorem Text.toByteArray_encode (text : Text) :
    text.encode.toByteArray = text.utf8Encode := rfl

@[simp] theorem Text.decode?_encode (text : Text) :
    Bytes.decode? text.encode = some text := by
  simp [Bytes.decode?, Text.toByteArray_encode, List.utf8Decode?_utf8Encode]

theorem Bytes.encode_of_decode? {bytes : Bytes} {text : Text}
    (decoded : Bytes.decode? bytes = some text) : text.encode = bytes := by
  simp only [Bytes.decode?, Option.map_eq_some_iff] at decoded
  obtain ⟨characters, found, rfl⟩ := decoded
  have present : bytes.toByteArray.utf8Decode?.isSome = true := by
    simp [found]
  have same := ByteArray.utf8Encode_get_utf8Decode? (h := present)
  simp only [found, Option.get_some] at same
  have data := congrArg (fun array => array.data.toList) same
  simpa [Text.encode, List.utf8Encode, List.data_toByteArray] using data

@[simp] theorem Bytes.lossy_encode (text : Text) : Bytes.lossy text.encode = text := by
  simp [Bytes.lossy]

theorem Bytes.decode?_eq_some_iff {bytes : Bytes} {text : Text} :
    Bytes.decode? bytes = some text ↔ text.encode = bytes :=
  ⟨Bytes.encode_of_decode?, fun same => same ▸ Text.decode?_encode text⟩

end WordMachine
