import WordMachine.Proofs.Isa.Footprint

namespace WordMachine

/-! How a step moves the program counter. An increment stands behind a fetch that
succeeded, so it is the exact sum as long as the end of memory has an address. -/

/-- The address of a cell, or the one behind the last cell. -/
def Word.UpTo (address : Word) (capacity : Nat) : Prop :=
  0 ≤ address.value ∧ address.value ≤ capacity

instance (address : Word) (capacity : Nat) : Decidable (address.UpTo capacity) :=
  inferInstanceAs (Decidable (_ ∧ _))

def Word.advance (address : Word) : Nat → Word
  | 0 => address
  | count + 1 => address.advance count + 1

/-- How many words an operation takes. A `loadc` has its constant behind it. -/
def Opcode.length : Opcode → Nat
  | .loadc => 2
  | _ => 1

theorem Opcode.length_of_ne_loadc {opcode : Opcode} (other : opcode ≠ .loadc) :
    opcode.length = 1 := by
  cases opcode with
  | loadc => exact absurd rfl other
  | _ => rfl

namespace Word

variable {address : Word} {capacity count : Nat}

theorem value_eq_of_upTo (upTo : address.UpTo capacity)
    (outside : ¬ address.InRange capacity) : address.value = capacity := by
  obtain ⟨nonnegative, le⟩ := upTo
  unfold InRange at outside
  omega

section Increment

variable (small : capacity ≤ 2 ^ 31 - 1)
include small

theorem value_add_one_of_inRange (inside : address.InRange capacity) :
    (address + 1).value = address.value + 1 := by
  obtain ⟨nonnegative, below⟩ := inside
  exact (Isa.represents_add_one address).value_eq (by omega) (by omega)

theorem upTo_add_one (inside : address.InRange capacity) :
    (address + 1).UpTo capacity := by
  have exact := value_add_one_of_inRange small inside
  obtain ⟨nonnegative, below⟩ := inside
  exact ⟨by omega, by omega⟩

/-- Increments are exact as long as each of them starts at a cell. -/
theorem value_advance
    (inside : ∀ earlier < count, (address.advance earlier).InRange capacity) :
    (address.advance count).value = address.value + count := by
  induction count with
  | zero => exact (Int.add_zero address.value).symm
  | succ count induction =>
      have before := induction fun earlier below =>
        inside earlier (Nat.lt_succ_of_lt below)
      have last := inside count (Nat.lt_succ_self count)
      rw [advance, value_add_one_of_inRange small last, before, Int.add_assoc]
      rfl

private theorem upTo_advance (start : address.UpTo capacity)
    (inside : ∀ earlier < count, (address.advance earlier).InRange capacity) :
    (address.advance count).UpTo capacity := by
  cases count with
  | zero => exact start
  | succ count =>
      exact upTo_add_one small (inside count (Nat.lt_succ_self count))

end Increment

end Word

namespace Isa

namespace Observation

def length (state : Observation) : Nat :=
  match Instruction.decode (state.contents state.pc) with
  | .ok instruction => instruction.opcode.length
  | .error _ => 1

inductive Jumps (state : Observation) : Word → Prop
  | taken {target operand : Register}
      (fetches : state.Fetches ⟨.if, target, operand⟩)
      (nonzero : (state.registers target).value ≠ 0) :
      Jumps state (state.registers operand)

/-- The next step is on an `if` that is taken out of memory, further than just
behind the last cell. -/
def Escapes (state : Observation) : Prop :=
  ∃ address, state.Jumps address ∧ ¬ address.UpTo state.capacity

/-- The address of a word that the next step takes and that is not in memory: its
instruction, or the constant of a `loadc`. -/
inductive RunsOut (state : Observation) : Word → Prop
  | instruction (outside : ¬ state.pc.InRange state.capacity) :
      RunsOut state state.pc
  | constant {target operand : Register}
      (fetches : state.Fetches ⟨.loadc, target, operand⟩)
      (outside : ¬ (state.pc + 1).InRange state.capacity) :
      RunsOut state (state.pc + 1)

inductive Strays (state : Observation) : Word → Prop
  | load {target operand : Register}
      (fetches : state.Fetches ⟨.load, target, operand⟩)
      (outside : ¬ (state.registers operand).InRange state.capacity) :
      Strays state (state.registers operand)
  | store {target operand : Register}
      (fetches : state.Fetches ⟨.store, target, operand⟩)
      (outside : ¬ (state.registers target).InRange state.capacity) :
      Strays state (state.registers target)

end Observation

/-- How a step that completes moves the program counter: over the words of its
instruction, by increments that do not wrap, unless it jumps. -/
structure Proceeds (state : Observation) (after : Word) : Prop where
  exact : ∀ count ≤ state.length,
    (state.pc.advance count).value = state.pc.value + count
  upTo : ∀ count ≤ state.length, (state.pc.advance count).UpTo state.capacity
  jumped : ∀ address, state.Jumps address → after = address
  counted : (∀ address, ¬ state.Jumps address) →
    after = state.pc.advance state.length

section State

variable {state : Observation} {address : Word}

theorem offends_iff : Offends state address ↔
    state.RunsOut address ∨ state.Strays address := by
  constructor
  · intro offends
    cases offends with
    | fetch outside => exact .inl (.instruction outside)
    | execute inside decoded misses =>
        cases misses with
        | load outside => exact .inr (.load ⟨inside, decoded⟩ outside)
        | loadc outside => exact .inl (.constant ⟨inside, decoded⟩ outside)
        | store outside => exact .inr (.store ⟨inside, decoded⟩ outside)
  · rintro (runsOut | strays)
    · cases runsOut with
      | instruction outside => exact .fetch outside
      | constant fetches outside =>
          exact .execute fetches.1 fetches.2 (.loadc outside)
    · cases strays with
      | load fetches outside =>
          exact .execute fetches.1 fetches.2 (.load outside)
      | store fetches outside =>
          exact .execute fetches.1 fetches.2 (.store outside)

theorem Observation.RunsOut.value_eq (runsOut : state.RunsOut address)
    (small : state.capacity ≤ 2 ^ 31 - 1)
    (upTo : state.pc.UpTo state.capacity) : address.value = state.capacity := by
  cases runsOut with
  | instruction outside => exact Word.value_eq_of_upTo upTo outside
  | constant fetches outside =>
      exact Word.value_eq_of_upTo (Word.upTo_add_one small fetches.1) outside

theorem inRange_pc (complete : ∀ address, ¬ state.RunsOut address) :
    state.pc.InRange state.capacity :=
  not_not.mp fun outside => complete _ (.instruction outside)

private theorem inRange_advance (complete : ∀ address, ¬ state.RunsOut address) :
    ∀ index < state.length,
      (state.pc.advance index).InRange state.capacity := by
  have inside := inRange_pc complete
  intro index below
  cases index with
  | zero => exact inside
  | succ index =>
      unfold Observation.length at below
      split at below
      next instruction decoded =>
          obtain ⟨opcode, target, operand⟩ := instruction
          by_cases loadc : opcode = .loadc
          · subst loadc
            obtain rfl : index = 0 :=
              Nat.lt_one_iff.mp (Nat.lt_of_succ_lt_succ below)
            exact not_not.mp fun outside =>
              complete _ (.constant ⟨inside, decoded⟩ outside)
          · rw [Opcode.length_of_ne_loadc loadc] at below
            omega
      next => omega

theorem Proceeds.upTo_iff {after : Word} (proceeds : Proceeds state after) :
    after.UpTo state.capacity ↔ ¬ state.Escapes := by
  by_cases jumps : ∃ address, state.Jumps address
  · obtain ⟨address, jumps⟩ := jumps
    have landed := proceeds.jumped address jumps
    constructor
    · rintro upTo ⟨other, jumps', outside⟩
      rw [proceeds.jumped other jumps'] at upTo
      exact outside upTo
    · intro stays
      by_contra outside
      rw [landed] at outside
      exact stays ⟨address, jumps, outside⟩
  · rw [not_exists] at jumps
    constructor
    · rintro - ⟨address, jumps', -⟩
      exact jumps address jumps'
    · intro _
      rw [proceeds.counted jumps]
      exact proceeds.upTo _ (Nat.le_refl _)

end State

/-- Unless it jumps, an instruction that is executed leaves the program counter
behind its last word. -/
theorem Executes.pc_of_ok {state : Observation} {word : Word}
    {instruction : Instruction} {outcome : Outcome} {status : Status}
    (executes : Executes state word instruction outcome)
    (completed : outcome.result = .ok status)
    (stays : instruction.opcode = .if →
      (state.registers instruction.target).value = 0) :
    outcome.after.pc = state.pc.advance instruction.opcode.length := by
  cases executes with
  | loadc => exact (BitVec.add_assoc state.pc 1 1).symm
  | jump nonzero => exact absurd (stays rfl) nonzero
  | compute computes => cases computes <;> rfl
  | loadFails => cases completed
  | loadcFails => cases completed
  | storeFails => cases completed
  | _ => rfl

theorem Steps.pc_of_ok {state : Observation} {outcome : Outcome} {status : Status}
    (steps : Steps state outcome) (completed : outcome.result = .ok status)
    (stays : ∀ address, ¬ state.Jumps address) :
    outcome.after.pc = state.pc.advance state.length := by
  cases steps with
  | unmapped => cases completed
  | undecodable inside undecodable =>
      rw [Observation.length, undecodable]
      rfl
  | @executes instruction _ inside decoded executes =>
      obtain ⟨opcode, target, operand⟩ := instruction
      rw [Observation.length, decoded]
      refine executes.pc_of_ok completed ?_
      rintro rfl
      exact not_not.mp fun nonzero => stays _ (.taken ⟨inside, decoded⟩ nonzero)

section Step

variable {processor : Processor} {memory : Memory} {status : Status}

theorem observed_of_jumps {address : Word}
    (jumps : (Observation.of processor.cpu memory).Jumps address) :
    observed (processor.step memory) = .completed
      (((Observation.of processor.cpu memory).fetched
        ((Observation.of processor.cpu memory).contents processor.cpu.pc)).jump
          address) := by
  cases jumps with
  | taken fetches nonzero =>
      exact (executes_of_fetches fetches).unique (.jump nonzero)

theorem pc_of_jumps {address : Word}
    (jumps : (Observation.of processor.cpu memory).Jumps address) :
    (processor.step memory).processor.cpu.pc = address :=
  congrArg (fun outcome => outcome.after.pc) (observed_of_jumps jumps)

private theorem not_runsOut_of_completed
    (completed : (processor.step memory).result = .ok status) (address : Word) :
    ¬ (Observation.of processor.cpu memory).RunsOut address := by
  intro runsOut
  have failed := result_eq_error_of_offends (offends_iff.mpr (.inl runsOut))
  cases completed.symm.trans failed

theorem proceeds_of_completed (small : memory.capacity ≤ 2 ^ 31 - 1)
    (completed : (processor.step memory).result = .ok status) :
    Proceeds (.of processor.cpu memory)
      (processor.step memory).processor.cpu.pc := by
  have complete := not_runsOut_of_completed completed
  have inside := inRange_pc complete
  have cells := inRange_advance complete
  constructor
  case exact =>
    intro count le
    exact Word.value_advance small fun earlier below =>
      cells earlier (Nat.lt_of_lt_of_le below le)
  case upTo =>
    intro count le
    exact Word.upTo_advance small ⟨inside.1, Int.le_of_lt inside.2⟩
      fun earlier below => cells earlier (Nat.lt_of_lt_of_le below le)
  case jumped => exact fun _ => pc_of_jumps
  case counted => exact (steps_observed processor memory).pc_of_ok completed

theorem upTo_step_iff (small : memory.capacity ≤ 2 ^ 31 - 1) :
    (processor.step memory).processor.cpu.pc.UpTo memory.capacity ↔
      processor.cpu.pc.UpTo memory.capacity ∧
        ¬ (Observation.of processor.cpu memory).Escapes := by
  cases result : (processor.step memory).result with
  | ok status =>
      have proceeds := proceeds_of_completed small result
      have before := proceeds.upTo 0 (Nat.zero_le _)
      exact proceeds.upTo_iff.trans (and_iff_right before).symm
  | error error =>
      have stays : ¬ (Observation.of processor.cpu memory).Escapes := by
        rintro ⟨address, jumps, -⟩
        have completed := congrArg Outcome.result (observed_of_jumps jumps)
        cases result.symm.trans completed
      rw [step_of_result_eq_error result]
      exact (and_iff_left stays).symm

theorem jumps_of_leaves (small : memory.capacity ≤ 2 ^ 31 - 1)
    (before : processor.cpu.pc.UpTo memory.capacity)
    (outside :
      ¬ (processor.step memory).processor.cpu.pc.UpTo memory.capacity) :
    (Observation.of processor.cpu memory).Jumps
      (processor.step memory).processor.cpu.pc := by
  rw [upTo_step_iff small, not_and, not_not] at outside
  obtain ⟨address, jumps, -⟩ := outside before
  rw [pc_of_jumps jumps]
  exact jumps

end Step

end Isa

end WordMachine
