import WordMachine.Memory

namespace WordMachine

/-! Which addresses name a cell, and what access through an address does. -/

def Word.InRange (address : Word) (capacity : Nat) : Prop :=
  0 ≤ address.value ∧ address.value < capacity

instance (address : Word) (capacity : Nat) :
    Decidable (address.InRange capacity) :=
  inferInstanceAs (Decidable (_ ∧ _))

namespace Memory

variable {memory : Memory} {address word : Word}

theorem locate_of_inRange (inside : address.InRange memory.capacity) :
    ∃ index, memory.locate address = .ok index ∧
      index.val = address.value.toNat := by
  obtain ⟨nonnegative, below⟩ := inside
  have bound : address.value.toNat < memory.capacity := by omega
  refine ⟨⟨address.value.toNat, bound⟩, ?_, rfl⟩
  rw [locate, dif_pos ⟨nonnegative, bound⟩]

theorem locate_of_not_inRange (outside : ¬ address.InRange memory.capacity) :
    memory.locate address = .error (.outOfRange address memory.capacity) := by
  rw [locate, dif_neg]
  intro bound
  apply outside
  exact ⟨bound.1, by omega⟩

theorem read_of_inRange (inside : address.InRange memory.capacity) :
    memory.read address = .ok (memory.cell address.value.toNat) := by
  obtain ⟨index, located, same⟩ := locate_of_inRange inside
  rw [read, located, Except.map, same]

theorem read_of_not_inRange (outside : ¬ address.InRange memory.capacity) :
    memory.read address = .error (.outOfRange address memory.capacity) := by
  rw [read, locate_of_not_inRange outside, Except.map]

theorem read_eq_ok_iff : memory.read address = .ok word ↔
    address.InRange memory.capacity ∧ memory.cell address.value.toNat = word := by
  by_cases inside : address.InRange memory.capacity
  · simp only [read_of_inRange inside, Except.ok.injEq, inside, true_and]
  · simp only [read_of_not_inRange inside, reduceCtorEq, inside, false_and]

theorem read_eq_error_iff {error : MemoryError} :
    memory.read address = .error error ↔
      ¬ address.InRange memory.capacity ∧
        error = .outOfRange address memory.capacity := by
  by_cases inside : address.InRange memory.capacity
  · simp only [read_of_inRange inside, reduceCtorEq, inside, not_true_eq_false,
      false_and]
  · simp only [read_of_not_inRange inside, Except.error.injEq, inside,
      not_false_eq_true, true_and, eq_comm]

theorem write_of_not_inRange (outside : ¬ address.InRange memory.capacity) :
    memory.write address word = .error (.outOfRange address memory.capacity) := by
  rw [write, locate_of_not_inRange outside, Except.map]

theorem exists_write_of_inRange (word : Word)
    (inside : address.InRange memory.capacity) :
    ∃ written, memory.write address word = .ok written ∧ ∀ index,
      written.cell index =
        if index = address.value.toNat then word else memory.cell index := by
  obtain ⟨place, located, same⟩ := locate_of_inRange inside
  refine ⟨memory.set place word, ?_, fun index => ?_⟩
  · rw [write, located, Except.map]
  · rw [cell_set, same]

theorem write_eq_error_iff {error : MemoryError} :
    memory.write address word = .error error ↔
      ¬ address.InRange memory.capacity ∧
        error = .outOfRange address memory.capacity := by
  by_cases inside : address.InRange memory.capacity
  · obtain ⟨written, success, _⟩ := exists_write_of_inRange word inside
    simp only [success, reduceCtorEq, inside, not_true_eq_false, false_and]
  · simp only [write_of_not_inRange inside, Except.error.injEq, inside,
      not_false_eq_true, true_and, eq_comm]

end Memory

end WordMachine
