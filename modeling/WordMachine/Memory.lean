import WordMachine.Word

namespace WordMachine

/-! A memory has a fixed number of cells. Only the cells up to the highest one
ever written are stored, and all cells beyond them are zero. -/

structure Memory where
  capacity : Nat
  stored : Array Word
  stored_le : stored.size ≤ capacity

inductive MemoryError where
  | outOfRange (address : Word) (capacity : Nat)
  | imageTooLarge (length : Nat) (capacity : Nat)
  deriving DecidableEq, Repr

namespace MemoryError

def message : MemoryError → String
  | .outOfRange address capacity =>
      s!"address {address.value} is outside memory [0, {capacity})"
  | .imageTooLarge length capacity =>
      s!"a program of {length} words does not fit in memory of {capacity} words"

end MemoryError

namespace Memory

def empty (capacity : Nat) : Memory :=
  ⟨capacity, #[], Nat.zero_le capacity⟩

/-- The contents of a cell by its index, zero past the last cell. -/
def cell (memory : Memory) (index : Nat) : Word :=
  memory.stored.getD index 0

/-- The cell an address names. Negative addresses name none. -/
def locate (memory : Memory) (address : Word) :
    Except MemoryError (Fin memory.capacity) :=
  if bound : 0 ≤ address.value ∧ address.value.toNat < memory.capacity then
    .ok ⟨address.value.toNat, bound.2⟩
  else
    .error (.outOfRange address memory.capacity)

def set (memory : Memory) (index : Fin memory.capacity) (word : Word) : Memory where
  capacity := memory.capacity
  stored :=
    if index.val < memory.stored.size then
      memory.stored.setIfInBounds index.val word
    else
      (memory.stored ++ Array.replicate (index.val - memory.stored.size) 0).push word
  stored_le := by
    have small := memory.stored_le
    have bound := index.isLt
    split
    · simpa using small
    · simp only [Array.size_push, Array.size_append, Array.size_replicate]
      omega

def read (memory : Memory) (address : Word) : Except MemoryError Word :=
  (memory.locate address).map fun index => memory.cell index.val

def write (memory : Memory) (address word : Word) : Except MemoryError Memory :=
  (memory.locate address).map fun index => memory.set index word

def clear (memory : Memory) : Memory :=
  empty memory.capacity

def loadImage (memory : Memory) (image : List Word) : Except MemoryError Memory :=
  if fits : image.length ≤ memory.capacity then
    .ok ⟨memory.capacity, image.toArray, by simpa using fits⟩
  else
    .error (.imageTooLarge image.length memory.capacity)

def cells (memory : Memory) : List Word :=
  (List.range memory.capacity).map memory.cell

def snapshot (memory : Memory) : List (Nat × Word) :=
  (List.range memory.capacity).map fun index => (index, memory.cell index)

@[simp] theorem capacity_empty (capacity : Nat) :
    (empty capacity).capacity = capacity := rfl

@[simp] theorem capacity_set (memory : Memory) (index : Fin memory.capacity)
    (word : Word) : (memory.set index word).capacity = memory.capacity := rfl

@[simp] theorem capacity_clear (memory : Memory) :
    memory.clear.capacity = memory.capacity := rfl

@[simp] theorem cell_empty (capacity index : Nat) :
    (empty capacity).cell index = 0 := by
  simp [empty, cell]

@[simp] theorem cell_clear (memory : Memory) (index : Nat) :
    memory.clear.cell index = 0 :=
  cell_empty memory.capacity index

theorem cell_eq_zero (memory : Memory) {index : Nat}
    (outside : memory.capacity ≤ index) : memory.cell index = 0 := by
  have small := memory.stored_le
  have beyond : memory.stored.size ≤ index := by omega
  simp [cell, Array.getD, Nat.not_lt.mpr beyond]

theorem cell_set (memory : Memory) (index : Fin memory.capacity) (word : Word)
    (other : Nat) :
    (memory.set index word).cell other =
      if other = index.val then word else memory.cell other := by
  unfold set cell
  split
  next stored =>
      simp only [Array.getD_eq_getD_getElem?, Array.getElem?_setIfInBounds]
      by_cases same : index.val = other
      · subst same
        simp [stored]
      · have different : ¬ other = index.val := fun equality => same equality.symm
        simp [same, different]
  next beyond =>
      simp only [Array.getD_eq_getD_getElem?, Array.getElem?_push,
        Array.size_append, Array.size_replicate]
      by_cases same : other = index.val
      · subst same
        have size : memory.stored.size + (index.val - memory.stored.size) =
            index.val := by omega
        simp [size]
      · have different : ¬ other =
            memory.stored.size + (index.val - memory.stored.size) := by omega
        simp only [different, same, if_false]
        by_cases stored : other < memory.stored.size
        · simp [Array.getElem?_append_left stored]
        · rw [Array.getElem?_append_right (Nat.le_of_not_lt stored)]
          have none : memory.stored[other]? = none :=
            Array.getElem?_eq_none (Nat.le_of_not_lt stored)
          rw [none, Array.getElem?_replicate]
          split <;> rfl

theorem loadImage_eq_error_iff {memory : Memory} {image : List Word}
    {error : MemoryError} :
    memory.loadImage image = .error error ↔
      memory.capacity < image.length ∧
        error = .imageTooLarge image.length memory.capacity := by
  unfold loadImage
  split
  · simp only [reduceCtorEq, false_iff, not_and]
    omega
  · simp only [Except.error.injEq]
    constructor
    · rintro rfl
      exact ⟨by omega, rfl⟩
    · rintro ⟨_, rfl⟩
      rfl

theorem capacity_of_loadImage {memory loaded : Memory} {image : List Word}
    (load : memory.loadImage image = .ok loaded) :
    loaded.capacity = memory.capacity := by
  unfold loadImage at load
  split at load
  · cases load
    rfl
  · cases load

theorem cell_of_loadImage {memory loaded : Memory} {image : List Word}
    (load : memory.loadImage image = .ok loaded) (index : Nat) :
    loaded.cell index = image.getD index 0 := by
  unfold loadImage at load
  split at load
  · cases load
    simp [cell, Array.getD_eq_getD_getElem?, List.getD_eq_getElem?_getD]
  · cases load

end Memory

end WordMachine
