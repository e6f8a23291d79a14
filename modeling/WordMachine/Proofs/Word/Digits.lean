import Mathlib.Data.List.TakeWhile
import WordMachine.Proofs.Text.Numeral
import WordMachine.Text.Blank
import WordMachine.Word

namespace WordMachine

/-! The eight digits of a word: their value is the word, and no character among
them means anything else to a reader of texts. -/

namespace Numeral

private theorem digits?_map_hexDigit {digits : List Nat} (nonempty : digits ≠ [])
    (small : ∀ digit ∈ digits, digit < 16) :
    digits? hexDigit? (digits.map hexDigit) = some digits := by
  have full : (digits.map hexDigit).isEmpty = false := by simpa using nonempty
  rw [digits?, full, if_neg Bool.false_ne_true]
  clear nonempty full
  induction digits with
  | nil => rfl
  | cons digit rest induction =>
      have first := hexDigit?_hexDigit (small digit List.mem_cons_self)
      have others := induction fun other member =>
        small other (List.mem_cons_of_mem digit member)
      rw [List.map_cons, List.mapM_cons, first, others]
      rfl

private theorem ofDigits_places (base count number : Nat) :
    ofDigits base ((List.range count).reverse.map fun place =>
      number / base ^ place % base) = number % base ^ count := by
  induction count generalizing number with
  | zero => simp [Nat.mod_one]
  | succ count induction =>
      have higher := induction (number / base)
      simp only [Nat.div_div_eq_div_mul, ← Nat.pow_succ'] at higher
      rw [List.range_succ_eq_map, List.reverse_cons, ← List.map_reverse,
        List.map_append, List.map_map, List.map_singleton,
        ofDigits_append_singleton, Function.comp_def, higher, Nat.pow_zero,
        Nat.div_one, Nat.pow_succ', Nat.mod_mul, Nat.add_comm]

theorem isBlank_eq_false_of_hexDigit? {c : Char} (digit : hexDigit? c ≠ none) :
    isBlank c = false := by
  have range : (48 ≤ c.toNat ∧ c.toNat ≤ 57) ∨ (97 ≤ c.toNat ∧ c.toNat ≤ 102) ∨
      (65 ≤ c.toNat ∧ c.toNat ≤ 70) := by
    unfold hexDigit? at digit
    split at digit
    next decimal => exact .inl decimal
    next =>
        split at digit
        next lower => exact .inr (.inl lower)
        next =>
            split at digit
            next upper => exact .inr (.inr upper)
            next => exact absurd rfl digit
  simp only [isBlank, Bool.or_eq_false_iff, Bool.and_eq_false_iff,
    decide_eq_false_iff_not, beq_eq_false_iff_ne]
  omega

end Numeral

namespace Word

open Numeral

theorem denotes_hex8 (word : Word) :
    Denotes 16 hexDigit? word.hex8 word.toNat := by
  let places := [7, 6, 5, 4, 3, 2, 1, 0].map fun place =>
    word.toNat / 16 ^ place % 16
  have small : ∀ digit ∈ places, digit < 16 := by
    intro digit member
    obtain ⟨place, _, rfl⟩ := List.mem_map.mp member
    exact Nat.mod_lt _ (by decide)
  have read : digits? hexDigit? word.hex8 = some places := by
    rw [← digits?_map_hexDigit (by simp [places]) small]
    rfl
  have value : ofDigits 16 places = word.toNat :=
    (ofDigits_places 16 8 word.toNat).trans (Nat.mod_eq_of_lt word.isLt)
  rw [← value]
  exact denotes_of_digits? read

theorem denotes_hex (word : Word) : Denotes 16 hexDigit? word.hex word.toNat := by
  have drop {zeros digits : Text} (zero : ∀ c ∈ zeros, c = '0')
      (present : digits ≠ [])
      (denotes : Denotes 16 hexDigit? (zeros ++ digits) word.toNat) :
      Denotes 16 hexDigit? digits word.toNat := by
    induction zeros with
    | nil => exact denotes
    | cons c rest induction =>
        obtain ⟨rfl, others⟩ := List.forall_mem_cons.mp zero
        refine induction others (denotes.of_cons_zero rfl ?_)
        exact List.append_ne_nil_of_right_ne_nil rest present
  have whole := word.denotes_hex8
  rw [← List.takeWhile_append_dropWhile (p := (· == '0')) (l := word.hex8)] at whole
  have zero : ∀ c ∈ word.hex8.takeWhile (· == '0'), c = '0' := by
    intro c member
    exact beq_iff_eq.mp (List.mem_takeWhile_imp (p := (· == '0')) member)
  unfold hex
  split
  next empty =>
      rw [empty, List.append_nil] at whole
      have last := List.dropLast_concat_getLast whole.ne_nil
      rw [← last] at whole zero
      rw [List.forall_mem_append, List.forall_mem_singleton] at zero
      rw [zero.2] at whole
      exact drop zero.1 (by simp) whole
  next digits present =>
      exact drop zero present whole

theorem hex_injective {word word' : Word} (same : word.hex = word'.hex) :
    word = word' := by
  have read := ofDigits_digits?_eq_some_iff.mpr word.denotes_hex
  have read' := ofDigits_digits?_eq_some_iff.mpr word'.denotes_hex
  rw [same, read'] at read
  exact BitVec.eq_of_toNat_eq (Option.some.inj read).symm

end Word

end WordMachine
