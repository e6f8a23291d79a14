import WordMachine.Proofs.Isa.Fault
import WordMachine.Proofs.Machine.Load
import WordMachine.Proofs.Machine.Steps

namespace WordMachine

/-! A larger memory, with zeros in the cells that are new, changes nothing for a
program that stays inside the smaller one. -/

private def Effect.widen {small large : Nat} (le : small ≤ large)
    (effect : Effect small) : Effect large where
  status := effect.status
  cpu := effect.cpu
  stored := effect.stored.map fun (index, word) => (index.castLE le, word)
  diagnostic := effect.diagnostic

namespace Memory

structure Widens (small large : Memory) : Prop where
  capacity : small.capacity ≤ large.capacity
  cells : ∀ index < small.capacity, large.cell index = small.cell index
  zeros : ∀ index, small.capacity ≤ index → large.cell index = 0

variable {small large : Memory} {address word : Word}

theorem Widens.cell (wider : small.Widens large) (index : Nat) :
    large.cell index = small.cell index := by
  by_cases inside : index < small.capacity
  · exact wider.cells index inside
  · have beyond := Nat.le_of_not_lt inside
    rw [wider.zeros index beyond, small.cell_eq_zero beyond]

theorem widens_of_cell (capacity : small.capacity ≤ large.capacity)
    (cell : ∀ index, large.cell index = small.cell index) :
    small.Widens large := by
  constructor
  case capacity => exact capacity
  case cells => exact fun index _ => cell index
  case zeros =>
    intro index beyond
    rw [cell, small.cell_eq_zero beyond]

theorem Widens.inRange (wider : small.Widens large)
    (inside : address.InRange small.capacity) :
    address.InRange large.capacity := by
  obtain ⟨nonnegative, below⟩ := inside
  have capacity := wider.capacity
  exact ⟨nonnegative, by omega⟩

theorem Widens.locate (wider : small.Widens large) {index : Fin small.capacity}
    (located : small.locate address = .ok index) :
    large.locate address = .ok (index.castLE wider.capacity) := by
  by_cases inside : address.InRange small.capacity
  · obtain ⟨first, here, same⟩ := locate_of_inRange inside
    obtain ⟨second, there, same'⟩ := locate_of_inRange (wider.inRange inside)
    rw [here] at located
    cases located
    rw [there]
    exact congrArg Except.ok (Fin.ext (same'.trans same.symm))
  · rw [locate_of_not_inRange inside] at located
    cases located

theorem Widens.read (wider : small.Widens large)
    (found : small.read address = .ok word) : large.read address = .ok word := by
  by_cases inside : address.InRange small.capacity
  · rw [read_of_inRange inside] at found
    rw [read_of_inRange (wider.inRange inside), wider.cell, found]
  · rw [read_of_not_inRange inside] at found
    cases found

theorem Widens.set (wider : small.Widens large) (index : Fin small.capacity)
    (word : Word) :
    (small.set index word).Widens
      (large.set (index.castLE wider.capacity) word) := by
  apply widens_of_cell
  · exact wider.capacity
  · intro other
    rw [cell_set, cell_set, wider.cell]
    rfl

end Memory

namespace Cpu

variable {small large : Memory}

private theorem execute_widen (wider : small.Widens large) {cpu : Cpu} {address : Word}
    {instruction : Instruction} {effect : Effect small.capacity}
    (executed : cpu.execute small address instruction = .ok effect) :
    cpu.execute large address instruction =
      .ok (effect.widen wider.capacity) := by
  obtain ⟨opcode, target, operand⟩ := instruction
  cases opcode with
  | load =>
      simp only [execute] at executed ⊢
      split at executed
      next word found =>
          cases executed
          rw [wider.read found]
          rfl
      next => cases executed
  | loadc =>
      simp only [execute] at executed ⊢
      split at executed
      next word found =>
          cases executed
          rw [wider.read found]
          rfl
      next => cases executed
  | store =>
      simp only [execute] at executed ⊢
      split at executed
      next index located =>
          cases executed
          rw [wider.locate located]
          rfl
      next => cases executed
  | div =>
      simp only [execute] at executed ⊢
      split at executed
      next zero =>
          cases executed
          rw [if_pos zero]
          rfl
      next nonzero =>
          cases executed
          rw [if_neg nonzero]
          rfl
  | _ =>
      cases executed
      rfl

private theorem cycle_widen (wider : small.Widens large) {cpu : Cpu}
    {effect : Effect small.capacity} (completed : cpu.cycle small = .ok effect) :
    cpu.cycle large = .ok (effect.widen wider.capacity) := by
  unfold cycle at completed ⊢
  split at completed
  next => cases completed
  next word found =>
      simp only [wider.read found]
      split at completed
      next instruction decoded =>
          exact execute_widen wider completed
      next cause undecodable =>
          cases completed
          rfl

end Cpu

namespace Isa

variable {small large : Memory} {cpu : Cpu} {address : Word}

theorem Offends.not_inRange {state : Observation} (offends : Offends state address) :
    ¬ address.InRange state.capacity := by
  cases offends with
  | fetch outside => exact outside
  | execute inside decoded misses =>
      cases misses with
      | load outside => exact outside
      | loadc outside => exact outside
      | store outside => exact outside

private theorem Misses.widen {instruction : Instruction}
    (misses : Misses (.of cpu small) instruction address)
    (outside : ¬ address.InRange large.capacity) :
    Misses (.of cpu large) instruction address := by
  cases misses with
  | load => exact .load outside
  | loadc => exact .loadc outside
  | store => exact .store outside

private theorem Offends.widen (wider : small.Widens large)
    (offends : Offends (.of cpu small) address)
    (outside : ¬ address.InRange large.capacity) :
    Offends (.of cpu large) address := by
  cases offends with
  | fetch => exact .fetch outside
  | execute inside decoded misses =>
      refine .execute (wider.inRange inside) ?_ (misses.widen outside)
      rw [← decoded]
      exact congrArg Instruction.decode (wider.cell _)

end Isa

namespace Machine

/-- Two machines in the same state, up to cells that only one of them has. -/
structure Widens (small large : Machine) : Prop where
  cpu : large.processor.cpu = small.processor.cpu
  memory : small.memory.Widens large.memory

variable {small large : Machine}

theorem Widens.step (wider : small.Widens large) {status : Status}
    (stepped : small.step.1 = .ok status) :
    large.step.1 = .ok status ∧
      large.step.2.diagnostic = small.step.2.diagnostic ∧
      small.step.2.Widens large.step.2 := by
  cases completed : small.processor.cpu.cycle small.memory with
  | error error =>
      have failed := congrArg StepOutcome.result
        (Processor.step_of_error completed)
      cases failed.symm.trans stepped
  | ok effect =>
      have widened := Cpu.cycle_widen wider.memory completed
      simp only [Machine.step, Processor.step, completed] at stepped
      simp only [Machine.step, Processor.step, wider.cpu, completed, widened]
      refine ⟨stepped, rfl, rfl, ?_⟩
      obtain ⟨_, cpu, stored, diagnostic⟩ := effect
      cases stored with
      | none => exact wider.memory
      | some write => exact wider.memory.set write.1 write.2

/-- A step that fails in the smaller memory fails in the larger one at the same
address, unless that address is one of the new cells. -/
theorem Widens.step_error (wider : small.Widens large) {error : MemoryError}
    (failed : small.step.1 = .error error) :
    ∃ address, error = .outOfRange address small.memory.capacity ∧
      ¬ address.InRange small.memory.capacity ∧
      (¬ address.InRange large.memory.capacity →
        large.step.1 = .error (.outOfRange address large.memory.capacity)) := by
  obtain ⟨address, offends, same⟩ :=
    Isa.exists_offends_of_result_eq_error failed
  refine ⟨address, same, offends.not_inRange, ?_⟩
  intro outside
  have offends' := offends.widen wider.memory outside
  rw [← wider.cpu] at offends'
  exact Isa.result_eq_error_of_offends offends'

theorem Widens.afterSteps (wider : small.Widens large) {count : Nat}
    (safe : ∀ index < count, ∃ status,
      (small.afterSteps index).step.1 = .ok status) :
    (small.afterSteps count).Widens (large.afterSteps count) := by
  induction count with
  | zero => exact wider
  | succ count induction =>
      have before := induction fun index earlier =>
        safe index (Nat.lt_succ_of_lt earlier)
      obtain ⟨status, stepped⟩ := safe count (Nat.lt_succ_self count)
      rw [afterSteps_succ, afterSteps_succ]
      exact (before.step stepped).2.2

theorem Widens.run (wider : small.Widens large) {budget : Nat}
    {summary : RunSummary} (finished : (small.run budget).1 = .ok summary) :
    (large.run budget).1 = .ok summary ∧
      (small.run budget).2.Widens (large.run budget).2 := by
  induction budget generalizing small large summary with
  | zero => exact ⟨finished, wider⟩
  | succ budget induction =>
      rcases stepped : small.step with ⟨_ | status, after⟩
      · rw [run_of_error stepped] at finished
        cases finished
      · obtain ⟨same, -, next⟩ := wider.step (congrArg Prod.fst stepped)
        have stepped' : large.step = (.ok status, large.step.2) :=
          Prod.ext same rfl
        rw [stepped] at next
        cases status with
        | halted =>
            rw [run_of_halted stepped] at finished ⊢
            rw [run_of_halted stepped']
            exact ⟨finished, next⟩
        | running =>
            rw [run_of_running stepped] at finished ⊢
            rw [run_of_running stepped']
            cases rest : (after.run budget).1 with
            | error error =>
                simp only [Prod.map_fst, rest] at finished
                cases finished
            | ok others =>
                obtain ⟨result, widened⟩ := induction next rest
                simp only [Prod.map_fst, rest] at finished
                simp only [Prod.map_fst, result]
                exact ⟨finished, widened⟩

private theorem widens_of_load {program : Program} {inSmall inLarge : Machine}
    (le : small.memory.capacity ≤ large.memory.capacity)
    (registers : ∀ register, large.get register = small.get register)
    (load : small.load program = .ok inSmall)
    (load' : large.load program = .ok inLarge) : inSmall.Widens inLarge := by
  obtain ⟨memory, image, rfl⟩ := load_eq_ok_iff.mp load
  obtain ⟨memory', image', rfl⟩ := load_eq_ok_iff.mp load'
  constructor
  case cpu =>
    have file : large.processor.cpu.registers = small.processor.cpu.registers :=
      Vector.ext fun index bound => registers ⟨index, bound⟩
    simp only [Processor.rewind, file]
  case memory =>
    apply Memory.widens_of_cell
    · rw [Memory.capacity_of_loadImage image, Memory.capacity_of_loadImage image']
      exact le
    · intro index
      rw [Memory.cell_of_loadImage image, Memory.cell_of_loadImage image']

/-- A program loaded into two memories steps alike in both for as long as it stays
inside the smaller one. The first step that does not fails in the larger one as
well, unless it reaches for a cell that only this one has. -/
theorem memory_size_is_invisible_in_bounds {program : Program}
    {small large : Machine}
    (le : small.memory.capacity ≤ large.memory.capacity)
    (fits : program.words.length ≤ small.memory.capacity)
    (registers : ∀ register, large.get register = small.get register) :
    ∃ inSmall inLarge, small.load program = .ok inSmall ∧
      large.load program = .ok inLarge ∧
      (∀ count, (∀ index < count, ∃ status,
          (inSmall.afterSteps index).step.1 = .ok status) →
        (∀ index < count,
          (inLarge.afterSteps index).step.1 =
              (inSmall.afterSteps index).step.1 ∧
            (inLarge.afterSteps (index + 1)).diagnostic =
              (inSmall.afterSteps (index + 1)).diagnostic) ∧
        (∀ index ≤ count,
          (inSmall.afterSteps index).memory.capacity = small.memory.capacity ∧
            (inLarge.afterSteps index).memory.capacity =
              large.memory.capacity ∧
            (inSmall.afterSteps index).Widens (inLarge.afterSteps index)) ∧
        ∀ error, (inSmall.afterSteps count).step.1 = .error error →
          ∃ address, error = .outOfRange address small.memory.capacity ∧
            if address.value < 0 ∨ large.memory.capacity ≤ address.value then
              (inLarge.afterSteps count).step.1 =
                .error (.outOfRange address large.memory.capacity)
            else
              small.memory.capacity < large.memory.capacity ∧
                small.memory.capacity ≤ address.value ∧
                address.value < large.memory.capacity) ∧
      ∀ budget summary, (inSmall.run budget).1 = .ok summary →
        (inLarge.run budget).1 = .ok summary ∧
          (inSmall.run budget).2.Widens (inLarge.run budget).2 := by
  obtain ⟨inSmall, load⟩ := exists_load_eq_ok fits
  obtain ⟨inLarge, load'⟩ := exists_load_eq_ok (Nat.le_trans fits le)
  have wider := widens_of_load le registers load load'
  have capacity := capacity_of_load load
  have capacity' := capacity_of_load load'
  refine ⟨inSmall, inLarge, load, load', ?_, fun _ _ => wider.run⟩
  intro count safe
  have alike : ∀ index ≤ count,
      (inSmall.afterSteps index).Widens (inLarge.afterSteps index) :=
    fun index within => wider.afterSteps fun earlier before =>
      safe earlier (Nat.lt_of_lt_of_le before within)
  refine ⟨?_, ?_, ?_⟩
  · intro index within
    obtain ⟨status, stepped⟩ := safe index within
    obtain ⟨result, diagnostic, -⟩ :=
      (alike index (Nat.le_of_lt within)).step stepped
    rw [afterSteps_succ, afterSteps_succ, result, stepped]
    exact ⟨rfl, diagnostic⟩
  · intro index within
    rw [capacity_afterSteps, capacity_afterSteps, capacity, capacity']
    exact ⟨rfl, rfl, alike index within⟩
  · intro error failed
    obtain ⟨address, same, outside, fails⟩ :=
      (alike count (Nat.le_refl count)).step_error failed
    rw [capacity_afterSteps, capacity] at same outside
    rw [capacity_afterSteps, capacity'] at fails
    refine ⟨address, same, ?_⟩
    unfold Word.InRange at outside fails
    split
    next beyond =>
        apply fails
        omega
    next within => omega

/-- A load from cell five of four, and of eight. -/
theorem memory_size_is_invisible_in_bounds_of_new_cell :
    let program : Program := .ofWords [0x200, 5, 0x110]
    let small := new { Config.defaults with capacity := 4 }
    let large := new { Config.defaults with capacity := 8 }
    ∃ inSmall inLarge, small.load program = .ok inSmall ∧
      large.load program = .ok inLarge ∧
      (inLarge.afterSteps 1).get 0 = 5 ∧
      (inSmall.afterSteps 1).step.1 = .error (.outOfRange 5 4) ∧
      (inSmall.afterSteps 1).Widens (inLarge.afterSteps 1) := by
  intro program small large
  obtain ⟨inSmall, inLarge, load, load', steps, -⟩ :=
    @memory_size_is_invisible_in_bounds program small large (by decide)
      (by decide) (fun _ => rfl)
  have safe : ∀ index < 1, ∃ status,
      (inSmall.afterSteps index).step.1 = .ok status := by
    intro index first
    obtain rfl : index = 0 := by omega
    cases load
    exact ⟨.running, by decide⟩
  have wider := ((steps 1 safe).2.1 1 (Nat.le_refl 1)).2.2
  refine ⟨inSmall, inLarge, load, load', ?_, ?_, wider⟩
  · cases load'
    decide
  · cases load
    decide

end Machine

end WordMachine
