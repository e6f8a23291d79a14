import WordMachine.Proofs.Isa.ProgramCounter
import WordMachine.Proofs.Machine.Budget

namespace WordMachine.Machine

open Isa

/-! The program counter along a run. It stays inside memory or just behind it until
a jump leads elsewhere, and until then a run that goes past its last word fails at
the end of memory. -/

def observation (machine : Machine) : Observation :=
  .of machine.processor.cpu machine.memory

private theorem pc_observation (machine : Machine) :
    machine.observation.pc = machine.pc := rfl

private theorem observation_of_fails {machine : Machine} {error : MemoryError}
    (fails : machine.step.1 = .error error) :
    machine.step.2.observation = machine.observation := by
  rw [step_of_fails fails]
  rfl

section Run

variable {machine : Machine} {budget : Nat}
  (small : machine.memory.capacity ≤ 2 ^ 31 - 1)
  (start : machine.pc.UpTo machine.memory.capacity)
include small start

/-- Only a jump moves the program counter out of its range. Nothing brings it back,
because every further fetch fails. -/
theorem upTo_afterSteps_iff (count : Nat) :
    (machine.afterSteps count).pc.UpTo machine.memory.capacity ↔
      ∀ index < count, ¬ (machine.afterSteps index).observation.Escapes := by
  induction count with
  | zero =>
      exact iff_of_true start fun _ before => absurd before (Nat.not_lt_zero _)
  | succ count induction =>
      -- The step lemma is about the memory of its own machine.
      rw [← machine.capacity_afterSteps count] at small induction ⊢
      rw [Nat.forall_lt_succ_right, ← induction, afterSteps_succ]
      exact upTo_step_iff small

theorem value_eq_of_runsOut {count : Nat} {address : Word}
    (stays : ∀ index < count,
      ¬ (machine.afterSteps index).observation.Escapes)
    (runsOut : (machine.afterSteps count).observation.RunsOut address) :
    address.value = machine.memory.capacity := by
  have upTo := (upTo_afterSteps_iff small start count).mpr stays
  rw [← machine.capacity_afterSteps count] at small upTo ⊢
  exact runsOut.value_eq small upTo

section Budget

variable (stays : ∀ index, machine.Takes budget index →
  ¬ (machine.afterSteps index).observation.Escapes)
include stays

theorem upTo_step_of_takes {last : Nat} (taken : machine.Takes budget last) :
    (machine.afterSteps last).step.2.pc.UpTo machine.memory.capacity := by
  rw [← afterSteps_succ]
  exact (upTo_afterSteps_iff small start (last + 1)).mpr fun index before =>
    stays index (taken.of_le (Nat.le_of_lt_succ before))

private theorem upTo_run : (machine.run budget).2.pc.UpTo machine.memory.capacity := by
  obtain ⟨outcome, ends⟩ := machine.exists_ends budget
  rw [run_of_ends ends]
  cases ends with
  | running continues =>
      exact (upTo_afterSteps_iff small start budget).mpr fun index before =>
        stays index (continues.takes before)
  | halted taken => exact upTo_step_of_takes small start stays taken
  | failed taken => exact upTo_step_of_takes small start stays taken

private theorem exists_of_run_eq_error {error : MemoryError}
    (failed : (machine.run budget).1 = .error error) :
    ∃ address, error = .outOfRange address machine.memory.capacity ∧
      ((machine.run budget).2.observation.RunsOut address ∧
          address.value = machine.memory.capacity ∨
        (machine.run budget).2.observation.Strays address) := by
  obtain ⟨last, taken, fails⟩ := run_eq_error_iff.mp failed
  rw [run_of_ends (.failed taken fails), observation_of_fails fails]
  obtain ⟨address, offends, same⟩ := exists_offends_of_result_eq_error fails
  rw [capacity_afterSteps] at same
  refine ⟨address, same, ?_⟩
  rcases offends_iff.mp offends with runsOut | strays
  · have value := value_eq_of_runsOut small start (fun index before =>
      stays index (taken.of_le (Nat.le_of_lt before))) runsOut
    exact .inl ⟨runsOut, value⟩
  · exact .inr strays

end Budget

end Run

/-- In a memory of fewer than `2 ^ 31` words the program counter never wraps, whatever
the memory holds, from every start inside it or just behind it. Each increment of a
step that completes is the exact sum and ends in this range. The program counter
leaves it only by a jump, and until then a step that lacks its instruction or its
constant fails at the end of memory. So does a bounded run without such a jump,
unless it fails at an address from a register. -/
theorem program_counter_never_wraps (machine : Machine)
    (small : machine.memory.capacity ≤ 2 ^ 31 - 1)
    (start : machine.pc.UpTo machine.memory.capacity) :
    let capacity := machine.memory.capacity
    (∀ count,
      let state := machine.afterSteps count
      let next := machine.afterSteps (count + 1)
      (∀ status, state.step.1 = .ok status →
        Proceeds state.observation next.pc) ∧
      (state.pc.UpTo capacity → ¬ next.pc.UpTo capacity →
        state.observation.Jumps next.pc) ∧
      (state.pc.UpTo capacity ↔
        ∀ index < count, ¬ (machine.afterSteps index).observation.Escapes) ∧
      ((∀ index < count, ¬ (machine.afterSteps index).observation.Escapes) →
        ∀ address, state.observation.RunsOut address →
          state.step.1 = .error (.outOfRange address capacity) ∧
            address.value = capacity)) ∧
    ∀ budget, (∀ index, machine.Takes budget index →
        ¬ (machine.afterSteps index).observation.Escapes) →
      let after := (machine.run budget).2
      after.pc.UpTo capacity ∧
        ∀ error, (machine.run budget).1 = .error error →
          ∃ address, error = .outOfRange address capacity ∧
            (after.observation.RunsOut address ∧ address.value = capacity ∨
              after.observation.Strays address) := by
  intro capacity
  refine ⟨?_, ?_⟩
  · intro count state next
    have moved : next = state.step.2 := machine.afterSteps_succ count
    have same : state.memory.capacity = capacity :=
      machine.capacity_afterSteps count
    have small' : state.memory.capacity ≤ 2 ^ 31 - 1 := by rwa [same]
    rw [moved]
    refine ⟨?_, ?_, upTo_afterSteps_iff small start count, ?_⟩
    · exact fun status => proceeds_of_completed small'
    · rw [← same]
      exact jumps_of_leaves small'
    · intro stays address runsOut
      have failed : state.step.1 = _ :=
        result_eq_error_of_offends (offends_iff.mpr (.inl runsOut))
      rw [same] at failed
      exact ⟨failed, value_eq_of_runsOut small start stays runsOut⟩
  · intro budget stays
    exact ⟨upTo_run small start stays,
      fun error => exists_of_run_eq_error small start stays⟩

/-- A jump to the last cell of the largest such memory, a halt there that leaves the
program counter just behind it, and a step that fails. -/
theorem program_counter_never_wraps_of_last_cell :
    let machine := (new { Config.defaults with capacity := 2 ^ 31 - 1 }).after
      [.load (.ofWords [0x200, 0x7FFFFFFE, 0xF00])]
    machine.memory.capacity = 2 ^ 31 - 1 ∧
      Proceeds (machine.afterSteps 0).observation 2 ∧
      (machine.afterSteps 1).observation.Jumps 0x7FFFFFFE ∧
      (machine.afterSteps 2).step.1 = .ok .halted ∧
      (machine.afterSteps 3).pc.value = machine.memory.capacity ∧
      (machine.afterSteps 3).step.1 =
        .error (.outOfRange 0x7FFFFFFF machine.memory.capacity) := by
  intro machine
  obtain ⟨steps, -⟩ :=
    program_counter_never_wraps machine (by decide) (by decide)
  have loads : (machine.afterSteps 0).step.1 = .ok .running := by decide
  have second : (machine.afterSteps 1).pc = 2 := by decide
  have target : (machine.afterSteps 1).observation.registers 0 = 0x7FFFFFFE := by
    decide
  have fetched : (machine.afterSteps 1).observation.contents
      (machine.afterSteps 1).pc = Instruction.encode ⟨.if, 0, 0⟩ := by decide
  have fetches : (machine.afterSteps 1).observation.Fetches ⟨.if, 0, 0⟩ :=
    ⟨by decide, fetched ▸ Instruction.decode_encode _⟩
  have upTo : (machine.afterSteps 3).pc.UpTo machine.memory.capacity := by decide
  have behind : (machine.afterSteps 3).pc = 0x7FFFFFFF := by decide
  have runsOut := Observation.RunsOut.instruction
    (by decide : ¬ (machine.afterSteps 3).observation.pc.InRange
      (machine.afterSteps 3).observation.capacity)
  refine ⟨by decide, ?_, ?_, by decide, ?_⟩
  · rw [← second]
    exact (steps 0).1 .running loads
  · have taken := Observation.Jumps.taken fetches (by decide)
    rwa [target] at taken
  · obtain ⟨-, -, stays, ends⟩ := steps 3
    obtain ⟨failed, value⟩ := ends (stays.mp upTo) _ runsOut
    rw [pc_observation] at failed value
    rw [behind] at failed
    exact ⟨value, failed⟩

/-- In a memory with one word more, a step on its last word wraps around. -/
example :
    let machine := (new { Config.defaults with capacity := 2 ^ 31 }).setPc
      0x7FFFFFFF
    machine.step.1 = .ok .halted ∧ machine.step.2.pc.value = -2 ^ 31 := by
  decide

end WordMachine.Machine
