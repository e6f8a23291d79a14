import WordMachine.Proofs.Isa.Fault

namespace WordMachine.Isa

/-! What a step writes and what it reads. The instruction names all of it: its two
registers, and at most one cell beside those that are fetched. -/

def unassigning : List Opcode :=
  [.halt, .store, .if]

theorem Computes.assigns {x y result : Word} {opcode : Opcode}
    (computes : Computes x y opcode result) : opcode ∉ unassigning := by
  cases computes <;> decide

namespace Observation

def Fetches (state : Observation) (instruction : Instruction) : Prop :=
  state.pc.InRange state.capacity ∧
    Instruction.decode (state.contents state.pc) = .ok instruction

/-- Two states with the same word in the cell of an address, if it names one. -/
def SharesCell (first second : Observation) (address : Word) : Prop :=
  address.InRange first.capacity →
    second.contents address = first.contents address

end Observation

/-- All that an instruction may change: its target register and, if it is a `store`,
the cell whose address is in that register. -/
structure Confined (instruction : Instruction) (before after : Observation) :
    Prop where
  capacity : after.capacity = before.capacity
  others : ∀ register, register ≠ instruction.target →
    after.registers register = before.registers register
  unassigned : instruction.opcode ∈ unassigning →
    after.registers = before.registers
  cells : ∀ index, ¬ (instruction.opcode = .store ∧
      index = (before.registers instruction.target).value.toNat) →
    after.cells index = before.cells index

/-- Two states that agree on the registers an instruction names and on the cell it
reads. -/
structure AgreesOn (instruction : Instruction) (first second : Observation) :
    Prop where
  target : second.registers instruction.target =
    first.registers instruction.target
  operand : second.registers instruction.operand =
    first.registers instruction.operand
  constant : instruction.opcode = .loadc →
    first.SharesCell second (first.pc + 1)
  loaded : instruction.opcode = .load →
    first.SharesCell second (first.registers instruction.operand)

/-- Two states that agree on all that their next step reads. -/
structure Agrees (first second : Observation) : Prop where
  pc : second.pc = first.pc
  capacity : second.capacity = first.capacity
  fetched : first.SharesCell second first.pc
  named : ∀ instruction, first.Fetches instruction →
    AgreesOn instruction first second

namespace Outcome

/-- Two outcomes that show the same. A step that fails keeps the last fetched word,
in which the states may differ. -/
structure Alike (first second : Outcome) : Prop where
  result : second.result = first.result
  diagnostic : second.diagnostic = first.diagnostic
  pc : second.after.pc = first.after.pc
  ir : ∀ status, first.result = .ok status →
    second.after.ir = first.after.ir

/-- Two outcomes that also agree on what the instruction wrote. -/
structure AlikeOn (instruction : Instruction) (before : Observation)
    (first second : Outcome) : Prop extends Alike first second where
  target : second.after.registers instruction.target =
    first.after.registers instruction.target
  stored : instruction.opcode = .store →
    ∀ status, first.result = .ok status →
      second.after.contents (before.registers instruction.target) =
        first.after.contents (before.registers instruction.target)

end Outcome

section Writes

variable {state : Observation} {word : Word} {instruction : Instruction}
  {outcome : Outcome}

theorem confined_of_same {after : Observation}
    (capacity : after.capacity = state.capacity)
    (registers : after.registers = state.registers)
    (cells : after.cells = state.cells) : Confined instruction state after where
  capacity := capacity
  others register _ := congrFun registers register
  unassigned _ := registers
  cells index _ := congrFun cells index

theorem confined_assign {opcode : Opcode} {target operand : Register}
    {after : Observation} {result : Word} (assigns : opcode ∉ unassigning)
    (confined : Confined ⟨opcode, target, operand⟩ state after) :
    Confined ⟨opcode, target, operand⟩ state (after.assign target result) where
  capacity := confined.capacity
  others register different := by
    have kept : (after.assign target result).registers register =
        after.registers register := Function.update_of_ne different _ _
    rw [kept]
    exact confined.others register different
  unassigned unassigned := absurd unassigned assigns
  cells := confined.cells

/-- No entry of the table changes more than it may. -/
theorem Executes.confined (executes : Executes state word instruction outcome) :
    Confined instruction state outcome.after := by
  have fetched {instruction : Instruction} {word : Word} :
      Confined instruction state (state.fetched word) :=
    confined_of_same rfl rfl rfl
  cases executes with
  | halt => exact fetched
  | load => exact confined_assign (by decide) fetched
  | loadc =>
      exact confined_assign (by decide) (confined_of_same rfl rfl rfl)
  | @store target operand inside =>
      constructor
      case capacity => rfl
      case others => exact fun register _ => rfl
      case unassigned => exact fun _ => rfl
      case cells =>
        intro index other
        rw [not_and] at other
        exact Function.update_of_ne (other rfl) _ _
  | divideByZero => exact fetched
  | jump => exact confined_of_same rfl rfl rfl
  | pass => exact fetched
  | compute computes => exact confined_assign computes.assigns fetched
  | _ => exact confined_of_same rfl rfl rfl

end Writes

section Reads

variable {first second : Observation} {word : Word} {instruction : Instruction}
  {outcome : Outcome}

theorem Agrees.fetches_iff (agrees : Agrees first second) :
    second.Fetches instruction ↔ first.Fetches instruction := by
  rw [Observation.Fetches, Observation.Fetches, agrees.pc, agrees.capacity]
  exact and_congr_right fun inside => by rw [agrees.fetched inside]

theorem alikeOn_fetched {opcode : Opcode} {target operand : Register}
    {status : Status} {diagnostic : Option Diagnostic}
    (pc : second.pc = first.pc)
    (same : second.registers target = first.registers target)
    (other : opcode ≠ .store) :
    Outcome.AlikeOn ⟨opcode, target, operand⟩ first
      ⟨.ok status, diagnostic, first.fetched word⟩
      ⟨.ok status, diagnostic, second.fetched word⟩ where
  result := rfl
  diagnostic := rfl
  pc := congrArg (· + 1) pc
  ir _ _ := rfl
  target := same
  stored store := absurd store other

theorem alikeOn_assign {opcode : Opcode} {target operand : Register}
    {after after' : Observation} {result : Word}
    (pc : after'.pc = after.pc) (ir : after'.ir = after.ir)
    (other : opcode ≠ .store) :
    Outcome.AlikeOn ⟨opcode, target, operand⟩ first
      (.completed (after.assign target result))
      (.completed (after'.assign target result)) where
  result := rfl
  diagnostic := rfl
  pc := pc
  ir _ _ := ir
  target := by
    simp only [Outcome.completed, Observation.assign, Function.update_self]
  stored store := absurd store other

theorem alikeOn_failed {address : Word} (pc : second.pc = first.pc)
    (capacity : second.capacity = first.capacity)
    (same : second.registers instruction.target =
      first.registers instruction.target) :
    Outcome.AlikeOn instruction first (.failed first address)
      (.failed second address) where
  result := by rw [Outcome.failed, Outcome.failed, capacity]
  diagnostic := rfl
  pc := pc
  ir _ completed := by cases completed
  target := same
  stored _ _ completed := by cases completed

/-- States that agree on what an instruction reads have outcomes that agree on what
it writes. -/
theorem Executes.exists_alikeOn (pc : second.pc = first.pc)
    (capacity : second.capacity = first.capacity)
    (agrees : AgreesOn instruction first second)
    (executes : Executes first word instruction outcome) :
    ∃ outcome', Executes second word instruction outcome' ∧
      outcome.AlikeOn instruction first outcome' := by
  obtain ⟨opcode, target, operand⟩ := instruction
  obtain ⟨same, same', constant, loaded⟩ := agrees
  simp only at same same' constant loaded
  cases executes with
  | halt => exact ⟨_, .halt, alikeOn_fetched pc same (by decide)⟩
  | load inside =>
      have contents := loaded rfl inside
      rw [← same', ← capacity] at inside
      refine ⟨_, .load inside, ?_⟩
      rw [same', contents]
      exact alikeOn_assign (congrArg (· + 1) pc) rfl (by decide)
  | loadFails outside =>
      rw [← same', ← capacity] at outside
      refine ⟨_, .loadFails outside, ?_⟩
      rw [same']
      exact alikeOn_failed pc capacity same
  | loadc inside =>
      have contents := constant rfl inside
      rw [← pc, ← capacity] at inside
      refine ⟨_, .loadc inside, ?_⟩
      rw [pc, contents]
      exact alikeOn_assign rfl rfl (by decide)
  | loadcFails outside =>
      rw [← pc, ← capacity] at outside
      refine ⟨_, .loadcFails outside, ?_⟩
      rw [pc]
      exact alikeOn_failed pc capacity same
  | store inside =>
      rw [← same, ← capacity] at inside
      refine ⟨_, .store inside, ?_⟩
      constructor
      case toAlike => exact ⟨rfl, rfl, congrArg (· + 1) pc, fun _ _ => rfl⟩
      case target => exact same
      case stored =>
        intro _ _ _
        simp only [Outcome.completed, Observation.contents, Observation.store,
          same, same', Function.update_self]
  | storeFails outside =>
      rw [← same, ← capacity] at outside
      refine ⟨_, .storeFails outside, ?_⟩
      rw [same]
      exact alikeOn_failed pc capacity same
  | divideByZero zero =>
      rw [← same'] at zero
      refine ⟨_, .divideByZero zero, ?_⟩
      rw [pc]
      exact alikeOn_fetched pc same (by decide)
  | jump nonzero =>
      rw [← same] at nonzero
      refine ⟨_, .jump nonzero, ?_⟩
      constructor
      case toAlike => exact ⟨rfl, rfl, same', fun _ _ => rfl⟩
      case target => exact same
      case stored => exact fun store => by cases store
  | pass zero =>
      rw [← same] at zero
      exact ⟨_, .pass zero, alikeOn_fetched pc same (by decide)⟩
  | compute computes =>
      have assigns := computes.assigns
      rw [← same, ← same'] at computes
      refine ⟨_, .compute computes, alikeOn_assign (congrArg (· + 1) pc) rfl ?_⟩
      rintro rfl
      exact assigns (by decide)

end Reads

section Step

variable {processor processor' : Processor} {memory memory' : Memory}

theorem executes_of_fetches {instruction : Instruction}
    (fetches : (Observation.of processor.cpu memory).Fetches instruction) :
    Executes (.of processor.cpu memory)
      ((Observation.of processor.cpu memory).contents processor.cpu.pc)
      instruction (observed (processor.step memory)) :=
  executes_step (Memory.read_of_inRange fetches.1) fetches.2

theorem observed_of_result_eq_error {error : MemoryError}
    (failed : (processor.step memory).result = .error error) :
    observed (processor.step memory) =
      ⟨.error error, none, .of processor.cpu memory⟩ := by
  rw [step_of_result_eq_error failed]
  rfl

private theorem same_of_not_fetches
    (unfetched : ∀ instruction,
      ¬ (Observation.of processor.cpu memory).Fetches instruction) :
    (observed (processor.step memory)).after.registers = processor.cpu.get ∧
      (observed (processor.step memory)).after.cells = memory.cell := by
  have steps := steps_observed processor memory
  generalize observed (processor.step memory) = outcome at steps
  cases steps with
  | unmapped => exact ⟨rfl, rfl⟩
  | undecodable => exact ⟨rfl, rfl⟩
  | executes inside decoded => exact absurd ⟨inside, decoded⟩ (unfetched _)

theorem Agrees.alikeOn {instruction : Instruction}
    (agrees : Agrees (.of processor.cpu memory) (.of processor'.cpu memory'))
    (fetches : (Observation.of processor.cpu memory).Fetches instruction) :
    (observed (processor.step memory)).AlikeOn instruction
      (.of processor.cpu memory) (observed (processor'.step memory')) := by
  have executes := executes_of_fetches fetches
  have executes' := executes_of_fetches (agrees.fetches_iff.mpr fetches)
  have pc : processor'.cpu.pc = processor.cpu.pc := agrees.pc
  have word : (Observation.of processor'.cpu memory').contents processor.cpu.pc =
      (Observation.of processor.cpu memory).contents processor.cpu.pc :=
    agrees.fetched fetches.1
  rw [pc, word] at executes'
  -- The table has one outcome for each state, so this is the one that is observed.
  obtain ⟨outcome, executed, alike⟩ := executes.exists_alikeOn agrees.pc
    agrees.capacity (agrees.named instruction fetches)
  rw [executed.unique executes'] at alike
  exact alike

theorem Agrees.alike
    (agrees : Agrees (.of processor.cpu memory) (.of processor'.cpu memory')) :
    (observed (processor.step memory)).Alike
      (observed (processor'.step memory')) := by
  have pc : processor'.cpu.pc = processor.cpu.pc := agrees.pc
  have capacity : memory'.capacity = memory.capacity := agrees.capacity
  by_cases inside : processor.cpu.pc.InRange memory.capacity
  · have fetched := Memory.read_of_inRange inside
    have fetched' : memory'.read processor'.cpu.pc =
        .ok (memory.cell processor.cpu.pc.value.toNat) := by
      rw [pc, Memory.read_of_inRange (capacity ▸ inside)]
      exact congrArg _ (agrees.fetched inside)
    cases decoded : Instruction.decode
        (memory.cell processor.cpu.pc.value.toNat) with
    | ok instruction => exact (agrees.alikeOn ⟨inside, decoded⟩).toAlike
    | error cause =>
        rw [observed_of_undecodable fetched decoded,
          observed_of_undecodable fetched' decoded, pc]
        exact ⟨rfl, rfl, congrArg (· + 1) pc, fun _ _ => rfl⟩
  · have outside : ¬ processor'.cpu.pc.InRange memory'.capacity := by
      rwa [pc, capacity]
    rw [observed_of_result_eq_error (result_eq_error_of_offends (.fetch inside)),
      observed_of_result_eq_error (result_eq_error_of_offends (.fetch outside))]
    refine ⟨?_, rfl, pc, fun _ completed => by cases completed⟩
    exact congrArg Except.error (congrArg₂ MemoryError.outOfRange pc capacity)

end Step

/-- A step writes only what its instruction names: its target register, or the cell
of a `store`. From states that agree on what the instruction names, and on the cells
it is fetched from, steps fail alike, or show the same and write the same. All that
they do not agree on, each step leaves as it was. -/
theorem step_touches_only_what_it_names (processor : Processor) (memory : Memory) :
    let before := Observation.of processor.cpu memory
    let outcome := observed (processor.step memory)
    (∀ instruction, before.Fetches instruction →
      Confined instruction before outcome.after) ∧
    ((∀ instruction, ¬ before.Fetches instruction) →
      outcome.after.registers = before.registers ∧
        outcome.after.cells = before.cells) ∧
    (∀ error, outcome.result = .error error → outcome.after = before) ∧
    ∀ (processor' : Processor) (memory' : Memory),
      let before' := Observation.of processor'.cpu memory'
      let outcome' := observed (processor'.step memory')
      Agrees before before' → outcome.Alike outcome' ∧
        (∀ instruction, before'.Fetches instruction ↔
          before.Fetches instruction) ∧
        ∀ instruction, before.Fetches instruction →
          outcome.AlikeOn instruction before outcome' ∧
            Confined instruction before' outcome'.after := by
  intro before outcome
  refine ⟨?_, same_of_not_fetches, ?_, ?_⟩
  · intro instruction fetches
    exact (executes_of_fetches fetches).confined
  · intro error failed
    exact congrArg Outcome.after (observed_of_result_eq_error failed)
  · intro processor' memory' before' outcome' agrees
    refine ⟨agrees.alike, fun _ => agrees.fetches_iff, fun instruction fetches => ?_⟩
    have fetches' := agrees.fetches_iff.mpr fetches
    exact ⟨agrees.alikeOn fetches, (executes_of_fetches fetches').confined⟩

/-- A `store` onto its own cell, in two states that differ in a register, in a cell
and in the last fetched word. -/
theorem step_touches_only_what_it_names_of_store_onto_itself :
    let word := Instruction.encode ⟨.store, 0, 1⟩
    let processor := ((Processor.initial.set 0 2).set 1 7).setPc 2
    let memory := (Memory.empty 4).set ⟨2, by decide⟩ word
    let processor' : Processor :=
      ⟨{ (processor.set 5 9).cpu with ir := 3 }, some (.divideByZero 1)⟩
    let memory' := memory.set ⟨0, by decide⟩ 4
    let before := Observation.of processor.cpu memory
    let before' := Observation.of processor'.cpu memory'
    let outcome := observed (processor.step memory)
    let outcome' := observed (processor'.step memory')
    Agrees before before' ∧ outcome.AlikeOn ⟨.store, 0, 1⟩ before outcome' ∧
      outcome'.after.contents 2 = 7 ∧ outcome'.after.registers 5 = 9 ∧
      outcome'.after.contents 0 = 4 := by
  intro word processor memory processor' memory' before before' outcome outcome'
  have fetches : before.Fetches ⟨.store, 0, 1⟩ :=
    ⟨by decide, Instruction.decode_encode _⟩
  have agrees : Agrees before before' := by
    refine ⟨rfl, rfl, fun _ => by decide, fun instruction fetches' => ?_⟩
    cases fetches.2.symm.trans fetches'.2
    exact ⟨by decide, by decide, nofun, nofun⟩
  obtain ⟨-, -, -, alike⟩ := step_touches_only_what_it_names processor memory
  obtain ⟨-, -, named⟩ := alike processor' memory' agrees
  obtain ⟨same, confined⟩ := named _ fetches
  refine ⟨agrees, same, ?_, ?_, ?_⟩
  · exact (same.stored rfl .running (by decide)).trans (by decide)
  · exact (confined.others 5 (by decide)).trans (by decide)
  · exact (confined.cells 0 (by decide)).trans (by decide)

end WordMachine.Isa
