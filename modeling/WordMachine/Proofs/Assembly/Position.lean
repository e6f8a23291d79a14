import Mathlib.Data.Fintype.Basic
import WordMachine.Proofs.Assembly.Line

namespace WordMachine.Assembly

/-! The region of a line from its place alone, and its agreement with the region
that assembling carries from line to line. -/

/-- A line is data below a bare `halt` in the instructions, a constant directly
below a `loadc` in them, and an instruction otherwise. Lines are given by their
tokens. -/
def position (lines : List (List Text)) (index : Nat) : Region :=
  if ∃ earlier : Fin index, position lines earlier.val = .instructions ∧
      (lines.getD earlier.val []).map Text.lower = [Opcode.halt.mnemonic] then
    .data
  else if ∃ previous : Fin index, previous.val + 1 = index ∧
      position lines previous.val = .instructions ∧
      ((lines.getD previous.val []).map Text.lower).head? =
        some Opcode.loadc.mnemonic then
    .constant
  else
    .instructions
termination_by index

theorem position_eq_data_iff {lines : List (List Text)} {index : Nat} :
    position lines index = .data ↔
      ∃ earlier < index, position lines earlier = .instructions ∧
        (lines.getD earlier []).map Text.lower = [Opcode.halt.mnemonic] := by
  rw [position]
  split
  next found =>
      obtain ⟨earlier, instructions, halts⟩ := found
      simp only [true_iff]
      exact ⟨earlier.val, earlier.isLt, instructions, halts⟩
  next absent =>
      constructor
      · intro data
        split at data <;> cases data
      · intro found
        obtain ⟨earlier, before, instructions, halts⟩ := found
        exact absurd ⟨⟨earlier, before⟩, instructions, halts⟩ absent

theorem position_eq_constant_iff {lines : List (List Text)} {index : Nat} :
    position lines index = .constant ↔
      position lines index ≠ .data ∧
        ∃ previous, previous + 1 = index ∧
          position lines previous = .instructions ∧
          ((lines.getD previous []).map Text.lower).head? =
            some Opcode.loadc.mnemonic := by
  constructor
  · intro constant
    refine ⟨by rw [constant]; decide, ?_⟩
    rw [position] at constant
    split at constant
    next => cases constant
    next =>
        split at constant
        next found =>
            obtain ⟨previous, directly, instructions, loads⟩ := found
            exact ⟨previous.val, directly, instructions, loads⟩
        next => cases constant
  · intro found
    obtain ⟨noData, previous, directly, instructions, loads⟩ := found
    rw [position] at noData ⊢
    split at noData
    next => exact absurd rfl noData
    next outside =>
        have before : previous < index := by omega
        rw [if_neg outside,
          if_pos ⟨⟨previous, before⟩, directly, instructions, loads⟩]

theorem endsInstructions_iff {tokens : List Text} :
    endsInstructions tokens = true ↔
      tokens.map Text.lower = [Opcode.halt.mnemonic] := by
  unfold endsInstructions
  split
  next token => simp
  next several =>
      simp only [Bool.false_eq_true, false_iff, List.map_eq_singleton_iff]
      intro halts
      obtain ⟨token, single, _⟩ := halts
      exact several token single

theorem awaitsConstant_iff {tokens : List Text} :
    awaitsConstant tokens = true ↔
      (tokens.map Text.lower).head? = some Opcode.loadc.mnemonic := by
  cases tokens with
  | nil => simp [awaitsConstant]
  | cons mnemonic operands =>
      simp only [awaitsConstant, Text.sameLetters_iff, List.map_cons,
        List.head?_cons, Option.some.injEq]
      rfl

theorem Region.eq_instructions {region : Region} (noData : region ≠ .data)
    (noConstant : region ≠ .constant) : region = .instructions := by
  cases region with
  | instructions => rfl
  | constant => exact absurd rfl noConstant
  | data => exact absurd rfl noData

@[simp] theorem position_zero (lines : List (List Text)) :
    position lines 0 = .instructions := by
  have noData : position lines 0 ≠ .data := by
    rw [ne_eq, position_eq_data_iff]
    intro found
    obtain ⟨earlier, before, _⟩ := found
    exact Nat.not_lt_zero earlier before
  have noConstant : position lines 0 ≠ .constant := by
    rw [ne_eq, position_eq_constant_iff]
    intro found
    obtain ⟨_, previous, directly, _⟩ := found
    exact Nat.succ_ne_zero previous directly
  exact Region.eq_instructions noData noConstant

private theorem position_succ_eq_data_iff (lines : List (List Text))
    (index : Nat) :
    position lines (index + 1) = .data ↔
      position lines index = .data ∨
        (position lines index = .instructions ∧
          endsInstructions (lines.getD index []) = true) := by
  rw [position_eq_data_iff, @position_eq_data_iff lines index,
    endsInstructions_iff]
  constructor
  · intro found
    obtain ⟨earlier, before, instructions, halts⟩ := found
    rcases Nat.lt_succ_iff_lt_or_eq.mp before with far | rfl
    · exact .inl ⟨earlier, far, instructions, halts⟩
    · exact .inr ⟨instructions, halts⟩
  · intro reached
    rcases reached with ⟨earlier, before, found⟩ | found
    · exact ⟨earlier, Nat.lt_succ_of_lt before, found⟩
    · exact ⟨index, Nat.lt_succ_self index, found⟩

private theorem position_succ_eq_constant_iff (lines : List (List Text))
    (index : Nat) :
    position lines (index + 1) = .constant ↔
      position lines (index + 1) ≠ .data ∧
        position lines index = .instructions ∧
          awaitsConstant (lines.getD index []) = true := by
  rw [position_eq_constant_iff, awaitsConstant_iff]
  constructor
  · intro placed
    obtain ⟨noData, previous, directly, found⟩ := placed
    cases Nat.succ.inj directly
    exact ⟨noData, found⟩
  · intro placed
    obtain ⟨noData, found⟩ := placed
    exact ⟨noData, index, rfl, found⟩

/-- The region carried from a line to the next is the position of the next. -/
theorem position_succ (lines : List (List Text)) (index : Nat) :
    position lines (index + 1) =
      (position lines index).after (lines.getD index []) := by
  have data := position_succ_eq_data_iff lines index
  have constant := position_succ_eq_constant_iff lines index
  cases here : position lines index with
  | data =>
      rw [Region.after_data]
      exact data.mpr (.inl here)
  | constant =>
      have noData : position lines (index + 1) ≠ .data := by
        rw [ne_eq, data, here]
        simp
      have noConstant : position lines (index + 1) ≠ .constant := by
        rw [ne_eq, constant, here]
        simp
      rw [Region.after_constant]
      exact Region.eq_instructions noData noConstant
  | instructions =>
      rw [Region.after]
      by_cases halts : endsInstructions (lines.getD index []) = true
      · rw [if_pos halts]
        exact data.mpr (.inr ⟨here, halts⟩)
      · have noData : position lines (index + 1) ≠ .data := by
          rw [ne_eq, data, here]
          intro placed
          rcases placed with impossible | ⟨_, found⟩
          · cases impossible
          · exact halts found
        rw [if_neg halts]
        by_cases loads : awaitsConstant (lines.getD index []) = true
        · rw [if_pos loads]
          exact constant.mpr ⟨noData, here, loads⟩
        · have noConstant : position lines (index + 1) ≠ .constant := by
            rw [ne_eq, constant]
            exact fun ⟨_, _, found⟩ => loads found
          rw [if_neg loads]
          exact Region.eq_instructions noData noConstant

theorem position_eq_foldl {lines : List (List Text)} {index : Nat}
    (bound : index ≤ lines.length) :
    position lines index =
      (lines.take index).foldl Region.after .instructions := by
  induction index with
  | zero => simp
  | succ index induction =>
      have inside : index < lines.length := bound
      rw [position_succ, induction (Nat.le_of_lt inside),
        List.take_add_one, List.foldl_append, List.getD_eq_getElem?_getD,
        List.getElem?_eq_getElem inside]
      rfl

end WordMachine.Assembly
