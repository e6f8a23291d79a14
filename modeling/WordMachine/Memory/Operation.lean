import WordMachine.Dump.Words

namespace WordMachine

/-! Operations on a memory as data, so that a memory can have a history. An
operation that fails leaves the memory as it was. -/

namespace Memory

inductive Operation where
  | read (address : Word)
  | write (address word : Word)
  | clear
  | loadImage (image : List Word)
  | snapshot
  | size
  | display
  deriving DecidableEq, Repr

inductive Answer where
  | done
  | word (word : Word)
  | cells (cells : List (Nat × Word))
  | size (capacity : Nat)
  | dump (text : Text)
  | failed (error : MemoryError)
  deriving DecidableEq, Repr

/-- The outcome of an operation that replaces the memory if it succeeds. -/
def replace (memory : Memory) : Except MemoryError Memory → Answer × Memory
  | .ok replaced => (.done, replaced)
  | .error error => (.failed error, memory)

def perform (memory : Memory) : Operation → Answer × Memory
  | .read address =>
      match memory.read address with
      | .ok word => (.word word, memory)
      | .error error => (.failed error, memory)
  | .write address word => memory.replace (memory.write address word)
  | .clear => (.done, memory.clear)
  | .loadImage image => memory.replace (memory.loadImage image)
  | .snapshot => (.cells memory.snapshot, memory)
  | .size => (.size memory.capacity, memory)
  | .display => (.dump memory.display, memory)

/-- The memory after a history of operations. -/
def after (memory : Memory) (history : List Operation) : Memory :=
  history.foldl (fun memory operation => (memory.perform operation).2) memory

@[simp] theorem after_nil (memory : Memory) : memory.after [] = memory := rfl

@[simp] theorem after_cons (memory : Memory) (operation : Operation)
    (rest : List Operation) :
    memory.after (operation :: rest) = (memory.perform operation).2.after rest := rfl

theorem capacity_write {memory written : Memory} {address word : Word}
    (write : memory.write address word = .ok written) :
    written.capacity = memory.capacity := by
  unfold Memory.write at write
  cases located : memory.locate address with
  | error error =>
      rw [located] at write
      cases write
  | ok index =>
      rw [located] at write
      cases write
      rfl

theorem capacity_perform (memory : Memory) (operation : Operation) :
    (memory.perform operation).2.capacity = memory.capacity := by
  cases operation with
  | read address =>
      simp only [perform]
      split <;> rfl
  | write address word =>
      cases write : memory.write address word with
      | error error => simp [perform, replace, write]
      | ok written => simpa [perform, replace, write] using capacity_write write
  | clear => rfl
  | loadImage image =>
      cases load : memory.loadImage image with
      | error error => simp [perform, replace, load]
      | ok loaded => simpa [perform, replace, load] using capacity_of_loadImage load
  | snapshot => rfl
  | size => rfl
  | display => rfl

theorem capacity_after (memory : Memory) (history : List Operation) :
    (memory.after history).capacity = memory.capacity := by
  induction history generalizing memory with
  | nil => rfl
  | cons operation rest induction =>
      rw [after_cons, induction, capacity_perform]

end Memory

end WordMachine
