import Mathlib.Data.List.Induction
import WordMachine.Memory.Operation
import WordMachine.Proofs.Memory.Access

namespace WordMachine.Memory

/-! A memory by the history of its operations. A cell holds the word of the last
operation that decided what it holds, and operations that fail decide nothing. -/

inductive Puts (capacity index : Nat) : Operation → Word → Prop
  | write {address word : Word} (inside : address.InRange capacity)
      (named : address.value.toNat = index) :
      Puts capacity index (.write address word) word
  | clear : Puts capacity index .clear 0
  | image {image : List Word} {word : Word} (fits : image.length ≤ capacity)
      (listed : image[index]? = some word) :
      Puts capacity index (.loadImage image) word
  | blank {image : List Word} (fits : image.length ≤ capacity)
      (beyond : image.length ≤ index) : Puts capacity index (.loadImage image) 0

def Spare (capacity index : Nat) (operations : List Operation) : Prop :=
  ∀ operation ∈ operations, ∀ word, ¬ Puts capacity index operation word

/-- The word that a history leaves in a cell of a new memory. -/
inductive Records (capacity index : Nat) : List Operation → Word → Prop
  | last {front back : List Operation} {operation : Operation} {word : Word}
      (puts : Puts capacity index operation word)
      (spare : Spare capacity index back) :
      Records capacity index (front ++ operation :: back) word
  | new {history : List Operation} (spare : Spare capacity index history) :
      Records capacity index history 0

section Step

variable {memory : Memory} {operation : Operation} {index : Nat}

private theorem cell_perform_of_puts {word : Word}
    (puts : Puts memory.capacity index operation word) :
    (memory.perform operation).2.cell index = word := by
  cases puts with
  | @write address word inside named =>
      obtain ⟨written, success, cells⟩ := exists_write_of_inRange word inside
      simp only [perform, replace, success, cells, named, if_true]
  | clear => exact cell_clear memory index
  | @image image word fits listed =>
      have load : memory.loadImage image = .ok _ := dif_pos fits
      simp only [perform, replace, load]
      rw [cell_of_loadImage load, List.getD_eq_getElem?_getD, listed]
      rfl
  | @blank image fits beyond =>
      have load : memory.loadImage image = .ok _ := dif_pos fits
      simp only [perform, replace, load]
      rw [cell_of_loadImage load, List.getD_eq_getElem?_getD,
        List.getElem?_eq_none beyond]
      rfl

private theorem perform_of_failed {error : MemoryError}
    (failed : (memory.perform operation).1 = .failed error) :
    (memory.perform operation).2 = memory := by
  cases operation with
  | read address =>
      simp only [perform]
      split <;> rfl
  | write address word =>
      cases write : memory.write address word with
      | ok written => simp only [perform, replace, write, reduceCtorEq] at failed
      | error cause => simp only [perform, replace, write]
  | loadImage image =>
      cases load : memory.loadImage image with
      | ok loaded => simp only [perform, replace, load, reduceCtorEq] at failed
      | error cause => simp only [perform, replace, load]
  | clear => cases failed
  | snapshot | size | display => rfl

private theorem cell_perform_of_spare
    (spare : Spare memory.capacity index [operation]) :
    (memory.perform operation).2.cell index = memory.cell index := by
  have unput := spare operation List.mem_cons_self
  cases operation with
  | write address word =>
      by_cases inside : address.InRange memory.capacity
      · obtain ⟨written, success, cells⟩ :=
          exists_write_of_inRange word inside
        have other : ¬ index = address.value.toNat := fun same =>
          unput word (.write inside same.symm)
        simp only [perform, replace, success, cells, other, if_false]
      · simp only [perform, replace, write_of_not_inRange inside]
  | clear => exact absurd .clear (unput 0)
  | loadImage image =>
      by_cases fits : image.length ≤ memory.capacity
      · cases listed : image[index]? with
        | some word => exact absurd (.image fits listed) (unput word)
        | none =>
            have beyond := List.getElem?_eq_none_iff.mp listed
            exact absurd (.blank fits beyond) (unput 0)
      · have load : memory.loadImage image = .error _ := dif_neg fits
        simp only [perform, replace, load]
  | read address =>
      simp only [perform]
      split <;> rfl
  | snapshot | size | display => rfl

end Step

theorem after_append (memory : Memory) (front back : List Operation) :
    memory.after (front ++ back) = (memory.after front).after back :=
  List.foldl_append

section Run

variable {capacity index : Nat} {history : List Operation} {word : Word}

/-- Operations that all spare a cell leave in it what it held before them. -/
theorem cell_after_of_spare {memory : Memory}
    (spare : Spare memory.capacity index history) :
    (memory.after history).cell index = memory.cell index := by
  induction history generalizing memory with
  | nil => rfl
  | cons operation rest induction =>
      obtain ⟨first, others⟩ := List.forall_mem_cons.mp spare
      have next : Spare (memory.perform operation).2.capacity index rest := by
        rw [capacity_perform]
        exact others
      rw [after_cons, induction next]
      exact cell_perform_of_spare (List.forall_mem_singleton.mpr first)

theorem Records.cell_eq (records : Records capacity index history word) :
    ((empty capacity).after history).cell index = word := by
  cases records with
  | @last front back operation word puts spare =>
      have size : ((empty capacity).after front).capacity = capacity :=
        capacity_after (empty capacity) front
      rw [after_append, after_cons, cell_after_of_spare]
      · apply cell_perform_of_puts
        rwa [size]
      · rwa [capacity_perform, size]
  | new spare => exact (cell_after_of_spare spare).trans (cell_empty capacity index)

/-- A history always has a last operation that decides a cell, or none at all. -/
theorem exists_records (capacity index : Nat) (history : List Operation) :
    ∃ word, Records capacity index history word := by
  induction history using List.reverseRecOn with
  | nil => exact ⟨0, .new nofun⟩
  | append_singleton history operation induction =>
      by_cases decided : ∃ word, Puts capacity index operation word
      · obtain ⟨word, puts⟩ := decided
        exact ⟨word, .last puts nofun⟩
      · have extend {before : List Operation} (spare : Spare capacity index before) :
            Spare capacity index (before ++ [operation]) := by
          refine List.forall_mem_append.mpr ⟨spare, ?_⟩
          exact List.forall_mem_singleton.mpr (not_exists.mp decided)
        obtain ⟨word, records⟩ := induction
        cases records with
        | @last front back operation' word puts spare =>
            refine ⟨word, ?_⟩
            rw [List.append_assoc, List.cons_append]
            exact .last puts (extend spare)
        | new spare => exact ⟨0, .new (extend spare)⟩

theorem cell_after_eq_iff :
    ((empty capacity).after history).cell index = word ↔
      Records capacity index history word := by
  refine ⟨?_, Records.cell_eq⟩
  intro same
  obtain ⟨found, records⟩ := exists_records capacity index history
  rw [← same, records.cell_eq]
  exact records

end Run

/-- Whatever was done to a new memory, it has the size it was made with, and an
address names a cell of it or is refused with that size. An image is refused if it
is longer. What is refused changes nothing. A cell reads as the word that the
history records for it, and a snapshot lists all cells in their order. -/
theorem history_determines_cells (capacity : Nat) (history : List Operation) :
    let memory := (empty capacity).after history
    memory.capacity = capacity ∧
    (∀ address word, memory.read address = .ok word ↔
      address.InRange capacity ∧
        Records capacity address.value.toNat history word) ∧
    (∀ address error, memory.read address = .error error ↔
      ¬ address.InRange capacity ∧ error = .outOfRange address capacity) ∧
    (∀ address word error, memory.write address word = .error error ↔
      ¬ address.InRange capacity ∧ error = .outOfRange address capacity) ∧
    (∀ image error, memory.loadImage image = .error error ↔
      capacity < image.length ∧ error = .imageTooLarge image.length capacity) ∧
    (∀ operation error, (memory.perform operation).1 = .failed error →
      (memory.perform operation).2 = memory) ∧
    memory.snapshot.map Prod.fst = List.range capacity ∧
    ∀ index word, (index, word) ∈ memory.snapshot ↔
      index < capacity ∧ Records capacity index history word := by
  intro memory
  have size : memory.capacity = capacity := capacity_after (empty capacity) history
  have cell {index : Nat} {word : Word} : memory.cell index = word ↔
      Records capacity index history word := cell_after_eq_iff
  refine ⟨size, ?_, ?_, ?_, ?_, fun _ _ => perform_of_failed, ?_, ?_⟩
  · intro address word
    rw [read_eq_ok_iff, size, cell]
  · intro address error
    rw [read_eq_error_iff, size]
  · intro address word error
    rw [write_eq_error_iff, size]
  · intro image error
    rw [loadImage_eq_error_iff, size]
  · simp only [snapshot, List.map_map, Function.comp_def, List.map_id', size]
  · intro index word
    simp only [snapshot, List.mem_map, List.mem_range, Prod.mk.injEq, size]
    constructor
    · intro listed
      obtain ⟨_, inside, rfl, same⟩ := listed
      exact ⟨inside, cell.mp same⟩
    · intro recorded
      exact ⟨index, recorded.1, rfl, cell.mpr recorded.2⟩

end WordMachine.Memory
