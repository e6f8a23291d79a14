import Mathlib.Algebra.Group.Nat.Defs
import Mathlib.Data.List.Induction
import WordMachine.Text.Numeral

namespace WordMachine.Numeral

/-! The positional grammar of numerals, and the readers as its decision
procedures. -/

/-- A digit denotes its own value; a further digit counts for itself, and the
digits before it count as many times as the base. -/
inductive Denotes (base : Nat) (digit? : Char → Option Nat) :
    Text → Nat → Prop
  | digit {c : Char} {value : Nat} (found : digit? c = some value) :
      Denotes base digit? [c] value
  | snoc {front : Text} {c : Char} {value last : Nat}
      (before : Denotes base digit? front value)
      (found : digit? c = some last) :
      Denotes base digit? (front ++ [c]) (base * value + last)

variable {base : Nat} {digit? : Char → Option Nat} {text : Text} {value : Nat}

theorem Denotes.ne_nil (denotes : Denotes base digit? text value) :
    text ≠ [] := by
  cases denotes <;> simp

theorem Denotes.digit_ne_none (denotes : Denotes base digit? text value)
    {c : Char} (member : c ∈ text) : digit? c ≠ none := by
  induction denotes with
  | digit found =>
      rw [List.mem_singleton] at member
      subst member
      simp [found]
  | snoc _ found induction =>
      rcases List.mem_append.mp member with before | last
      · exact induction before
      · rw [List.mem_singleton] at last
        subst last
        simp [found]

private theorem digits?_append_singleton (front : Text) (c : Char)
    (nonempty : front ≠ []) :
    digits? digit? (front ++ [c]) =
      (digits? digit? front).bind fun digits =>
        (digit? c).map fun last => digits ++ [last] := by
  have full : (front ++ [c]).isEmpty = false := by simp
  have frontFull : front.isEmpty = false := by simpa using nonempty
  simp only [digits?, full, frontFull, Bool.false_eq_true, if_false,
    List.mapM_append]
  cases front.mapM digit? with
  | none => rfl
  | some digits => cases found : digit? c <;> simp [found]

private theorem digits?_singleton (c : Char) :
    digits? digit? [c] = (digit? c).map fun digit => [digit] := by
  cases found : digit? c <;> simp [digits?, found]

theorem denotes_of_digits? {digits : List Nat}
    (read : digits? digit? text = some digits) :
    Denotes base digit? text (ofDigits base digits) := by
  induction text using List.reverseRecOn generalizing digits with
  | nil => simp [digits?] at read
  | append_singleton front c induction =>
      by_cases empty : front = []
      · subst empty
        rw [List.nil_append, digits?_singleton, Option.map_eq_some_iff] at read
        obtain ⟨digit, found, rfl⟩ := read
        have single : ofDigits base [digit] = digit := by simp [ofDigits]
        rw [single]
        exact .digit found
      · rw [digits?_append_singleton front c empty] at read
        obtain ⟨before, readFront, rest⟩ := Option.bind_eq_some_iff.mp read
        obtain ⟨last, found, rfl⟩ := Option.map_eq_some_iff.mp rest
        rw [ofDigits_append_singleton]
        exact .snoc (induction readFront) found

theorem Denotes.digits? (denotes : Denotes base digit? text value) :
    ∃ digits, Numeral.digits? digit? text = some digits ∧
      ofDigits base digits = value := by
  induction denotes with
  | @digit c value found =>
      refine ⟨[value], ?_, by simp [ofDigits]⟩
      rw [digits?_singleton, found]
      rfl
  | @snoc front c value last before found induction =>
      obtain ⟨digits, read, valued⟩ := induction
      refine ⟨digits ++ [last], ?_, ?_⟩
      · rw [digits?_append_singleton front c before.ne_nil, read, found]
        rfl
      · rw [ofDigits_append_singleton, valued]

theorem ofDigits_digits?_eq_some_iff :
    (digits? digit? text).map (ofDigits base) = some value ↔
      Denotes base digit? text value := by
  constructor
  · intro read
    obtain ⟨digits, found, rfl⟩ := Option.map_eq_some_iff.mp read
    exact denotes_of_digits? found
  · intro denotes
    obtain ⟨digits, found, valued⟩ := denotes.digits?
    rw [found, Option.map_some, valued]

theorem Denotes.of_cons_zero {c : Char} (zero : digit? c = some 0)
    (present : text ≠ []) (denotes : Denotes base digit? (c :: text) value) :
    Denotes base digit? text value := by
  obtain ⟨digits, read, rfl⟩ := denotes.digits?
  have full : text.isEmpty = false := by simpa using present
  rw [Numeral.digits?, if_neg (by simp), List.mapM_cons, zero] at read
  cases others : text.mapM digit? with
  | none =>
      rw [others] at read
      cases read
  | some rest =>
      rw [others] at read
      cases read
      have read' : Numeral.digits? digit? text = some rest := by
        rw [Numeral.digits?, full, if_neg Bool.false_ne_true, others]
      have same : ofDigits base (0 :: rest) = ofDigits base rest := by
        simp [ofDigits]
      rw [same]
      exact denotes_of_digits? read'

theorem decimal?_eq_some_iff :
    decimal? text = some value ↔ Denotes 10 decimalDigit? text value :=
  ofDigits_digits?_eq_some_iff

theorem hexadecimal?_eq_some_iff :
    hexadecimal? text = some value ↔ Denotes 16 hexDigit? text value :=
  ofDigits_digits?_eq_some_iff

theorem hexDigit?_toLower (c : Char) : hexDigit? c.toLower = hexDigit? c := by
  have ascii : ∀ code : Fin 128,
      hexDigit? (Char.ofNat code).toLower = hexDigit? (Char.ofNat code) := by
    decide
  by_cases small : c.toNat < 128
  · simpa using ascii ⟨c.toNat, small⟩
  · have same : c.toLower = c := by
      unfold Char.toLower
      split
      next upper =>
        have bound : c.toNat ≤ 90 := upper.2
        omega
      next => rfl
    rw [same]

theorem hexDigit?_ne_none_of_decimalDigit? {c : Char}
    (digit : decimalDigit? c ≠ none) : hexDigit? c ≠ none := by
  unfold decimalDigit? at digit
  unfold hexDigit?
  split at digit
  next decimal => simp [decimal]
  next => exact absurd rfl digit

theorem decimalDigit?_digitChar {digit : Nat} (bound : digit < 10) :
    decimalDigit? (Nat.digitChar digit) = some digit := by
  have each : ∀ digit : Fin 10,
      decimalDigit? (Nat.digitChar digit.val) = some digit.val := by
    decide
  exact each ⟨digit, bound⟩

theorem denotes_toDigits (number : Nat) :
    Denotes 10 decimalDigit? (Nat.toDigits 10 number) number := by
  induction number using Nat.strongRecOn with
  | ind number induction =>
      rw [Nat.toDigits_eq_if (by decide)]
      split
      next small => exact .digit (decimalDigit?_digitChar small)
      next large =>
          have shorter : number / 10 < number := by omega
          have last := decimalDigit?_digitChar (Nat.mod_lt number (by decide))
          have denotes := Denotes.snoc (induction _ shorter) last
          rwa [Nat.div_add_mod] at denotes

inductive Signed : Text → Int → Prop
  | bare {digits : Text} {magnitude : Nat}
      (denotes : Denotes 10 decimalDigit? digits magnitude) : Signed digits magnitude
  | plus {digits : Text} {magnitude : Nat}
      (denotes : Denotes 10 decimalDigit? digits magnitude) :
      Signed ('+' :: digits) magnitude
  | minus {digits : Text} {magnitude : Nat}
      (denotes : Denotes 10 decimalDigit? digits magnitude) :
      Signed ('-' :: digits) (-magnitude)

theorem signed?_eq_some_iff {number : Int} :
    signed? text = some number ↔ Signed text number := by
  constructor
  · intro read
    unfold signed? at read
    split at read
    · obtain ⟨magnitude, found, rfl⟩ := Option.map_eq_some_iff.mp read
      exact .plus (decimal?_eq_some_iff.mp found)
    · obtain ⟨magnitude, found, rfl⟩ := Option.map_eq_some_iff.mp read
      exact .minus (decimal?_eq_some_iff.mp found)
    · obtain ⟨magnitude, found, rfl⟩ := Option.map_eq_some_iff.mp read
      exact .bare (decimal?_eq_some_iff.mp found)
  · intro spelled
    cases spelled with
    | bare denotes =>
        have found := decimal?_eq_some_iff.mpr denotes
        unfold signed?
        split
        · exact absurd rfl (denotes.digit_ne_none List.mem_cons_self)
        · exact absurd rfl (denotes.digit_ne_none List.mem_cons_self)
        · rw [found, Option.map_some]
    | plus denotes =>
        rw [signed?, decimal?_eq_some_iff.mpr denotes, Option.map_some]
    | minus denotes =>
        rw [signed?, decimal?_eq_some_iff.mpr denotes, Option.map_some]

theorem unsigned?_of_denotes (denotes : Denotes 10 decimalDigit? text value) :
    unsigned? text = some value := by
  have found := decimal?_eq_some_iff.mpr denotes
  unfold unsigned?
  split
  · exact absurd rfl (denotes.digit_ne_none List.mem_cons_self)
  · exact found

inductive Unsigned : Text → Nat → Prop
  | bare {digits : Text} {number : Nat}
      (denotes : Denotes 10 decimalDigit? digits number) : Unsigned digits number
  | plus {digits : Text} {number : Nat}
      (denotes : Denotes 10 decimalDigit? digits number) :
      Unsigned ('+' :: digits) number

theorem unsigned?_eq_some_iff : unsigned? text = some value ↔ Unsigned text value := by
  constructor
  · intro read
    unfold unsigned? at read
    split at read
    · exact .plus (decimal?_eq_some_iff.mp read)
    · exact .bare (decimal?_eq_some_iff.mp read)
  · intro spelled
    cases spelled with
    | bare denotes => exact unsigned?_of_denotes denotes
    | plus denotes => exact decimal?_eq_some_iff.mpr denotes

theorem size?_eq_some_iff :
    size? text = some value ↔ Unsigned text value ∧ value < 2 ^ 64 := by
  rw [size?, Option.filter_eq_some_iff, unsigned?_eq_some_iff, decide_eq_true_iff]
  rfl

end WordMachine.Numeral
