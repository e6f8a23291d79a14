import WordMachine.Machine.Operation
import WordMachine.Proofs.Assembly.Grammar
import WordMachine.Proofs.Isa.Table

namespace WordMachine.Machine

open Assembly Isa

/-! A machine that an assembled program was loaded into executes, at each
address that still holds its word, what the source line of that address says. -/

def Replaces (machine : Machine) (operation : Operation) : Prop :=
  ∃ program loaded, operation = .load program ∧
    machine.load program = .ok loaded

/-- The machines that operations lead to while no other program is put in
place. Loads that fail are among the operations, and so is a reset. -/
inductive Reaches (start : Machine) : Machine → Prop
  | refl : Reaches start start
  | perform {machine : Machine} {operation : Operation}
      (reached : Reaches start machine)
      (kept : ¬ machine.Replaces operation) :
      Reaches start (machine.perform operation).2

theorem not_replaces_step (machine : Machine) : ¬ machine.Replaces .step := by
  intro replaced
  obtain ⟨program, loaded, same, load⟩ := replaced
  cases same

structure Frame where
  config : Config
  capacity : Nat
  lines : Option (List Nat)

def frame (machine : Machine) : Frame :=
  ⟨machine.config, machine.memory.capacity, machine.lines⟩

theorem frame_step (machine : Machine) :
    machine.step.2.frame = machine.frame := by
  rw [frame, frame, config_step, capacity_of_step, lines_step]

theorem frame_run (machine : Machine) (budget : Nat) :
    (machine.run budget).2.frame = machine.frame :=
  runFrom_preserves (fun after => after.frame = machine.frame)
    (fun after same => (frame_step after).trans same) 0 budget machine rfl

theorem frame_perform {machine : Machine} {operation : Operation}
    (kept : ¬ machine.Replaces operation) (noReset : operation ≠ .reset) :
    (machine.perform operation).2.frame = machine.frame := by
  cases operation with
  | load program =>
      cases load : machine.load program with
      | ok loaded => exact absurd ⟨program, loaded, rfl, load⟩ kept
      | error error => simp only [perform, load]
  | step => exact frame_step machine
  | run budget => exact frame_run machine budget
  | runToHalt => exact frame_run machine machine.config.stepBudget
  | reset => exact absurd rfl noReset
  | memory operation =>
      have capacity := Memory.capacity_perform machine.memory operation
      simp only [perform, frame, Prod.map, capacity]
  | _ => rfl

private theorem lines_perform {machine : Machine} {operation : Operation}
    (kept : ¬ machine.Replaces operation) :
    (machine.perform operation).2.lines = machine.lines ∨
      (machine.perform operation).2.lines = none := by
  by_cases resets : operation = .reset
  · subst resets
    exact .inr rfl
  · exact .inl (congrArg Frame.lines (frame_perform kept resets))

theorem Reaches.lines {start machine : Machine}
    (reached : Reaches start machine) :
    machine.lines = start.lines ∨ machine.lines = none := by
  induction reached with
  | refl => exact .inl rfl
  | perform reached kept induction =>
      rcases lines_perform kept with same | cleared
      · rw [same]
        exact induction
      · exact .inr cleared

theorem sourceLine_eq_some_iff {machine : Machine} {address : Word}
    {number : Nat} :
    machine.sourceLine address = some number ↔
      0 ≤ address.value ∧ ∃ lines, machine.lines = some lines ∧
        lines[address.value.toNat]? = some number := by
  unfold sourceLine
  by_cases nonnegative : 0 ≤ address.value
  · rw [if_pos nonnegative, Option.bind_eq_some_iff]
    simp [nonnegative]
  · simp [nonnegative]

/-- Whatever was done since the load, an address shows its line of the loaded
program or none. -/
theorem Reaches.sourceLine {start machine : Machine}
    (reached : Reaches start machine) {address : Word} {number : Nat}
    (shown : machine.sourceLine address = some number) :
    start.sourceLine address = some number := by
  obtain ⟨nonnegative, lines, recorded, found⟩ := sourceLine_eq_some_iff.mp shown
  rcases reached.lines with same | cleared
  · rw [same] at recorded
    exact sourceLine_eq_some_iff.mpr ⟨nonnegative, lines, recorded, found⟩
  · rw [cleared] at recorded
    cases recorded

theorem exists_load_eq_ok {machine : Machine} {program : Program}
    (fits : program.words.length ≤ machine.memory.capacity) :
    ∃ loaded, machine.load program = .ok loaded := by
  unfold load Memory.loadImage
  rw [dif_pos fits]
  exact ⟨_, rfl⟩

theorem lines_of_load {machine loaded : Machine} {program : Program}
    (load : machine.load program = .ok loaded) :
    loaded.lines = program.lines := by
  unfold Machine.load at load
  split at load
  next => cases load; rfl
  next => cases load

theorem cell_of_load {machine loaded : Machine} {program : Program}
    (load : machine.load program = .ok loaded) {index : Nat} {word : Word}
    (found : program.words[index]? = some word) :
    loaded.memory.cell index = word := by
  unfold Machine.load at load
  split at load
  next memory image =>
      cases load
      rw [Memory.cell_of_loadImage image, List.getD_eq_getElem?_getD, found]
      rfl
  next => cases load

private theorem exists_line_of_sourceLine {text : Text} {program : Program}
    (assembled : Program.assemble text = .ok program) {machine loaded : Machine}
    (load : machine.load program = .ok loaded) {address : Word} {number : Nat}
    (shown : loaded.sourceLine address = some number) :
    ∃ index line, address.value = Int.ofNat index ∧ 0 < number ∧
      (Text.lines text)[number - 1]? = some line ∧
      (tokenLines text)[index]? = some (tokens line, number) := by
  obtain ⟨nonnegative, lines, recorded, found⟩ := sourceLine_eq_some_iff.mp shown
  rw [lines_of_load load, lines_of_assemble assembled] at recorded
  cases recorded
  rw [List.getElem?_map, Option.map_eq_some_iff] at found
  obtain ⟨⟨_, _⟩, placed, rfl⟩ := found
  obtain ⟨line, numbered, rfl⟩ := numbered_of_tokenLines placed
  obtain ⟨positive, written⟩ := List.mk_mem_zipIdx_iff_le_and_getElem?_sub.mp
    numbered
  exact ⟨address.value.toNat, line, (Int.toNat_of_nonneg nonnegative).symm,
    positive, written, placed⟩

def nextOutcome (machine : Machine) : Outcome where
  result := machine.step.1
  diagnostic := machine.step.2.diagnostic
  after := .of machine.step.2.processor.cpu machine.step.2.memory

/-- The next word is that of some content, and an instruction has the outcome of
the table when it is stepped on. -/
def Follows (machine : Machine) (content : Content) : Prop :=
  ∃ word, machine.memory.read machine.pc = .ok word ∧ content.Occupies word ∧
    ∀ decoded, content = .instruction decoded →
      (∀ outcome, Executes (.of machine.processor.cpu machine.memory) word
        decoded outcome ↔ outcome = machine.nextOutcome) ∧
      ∀ address cause, machine.step.2.diagnostic ≠
        some (.unrecognized address cause)

private theorem follows_of_read {machine : Machine} {content : Content} {word : Word}
    (fetched : machine.memory.read machine.pc = .ok word)
    (held : content.Occupies word) : machine.Follows content := by
  refine ⟨word, fetched, held, ?_⟩
  intro decoded same
  subst same
  have encoded := Content.occupies_instruction_iff.mp held
  have executes : Executes (.of machine.processor.cpu machine.memory) word
      decoded machine.nextOutcome := by
    apply executes_step fetched
    rw [encoded, Instruction.decode_encode]
  exact ⟨executes.iff_eq, executes.diagnostic_ne_unrecognized⟩

/-- An assembled program that fits is loaded, and from then on a step from a cell
with its loaded word executes the line that the machine shows for it. -/
theorem loaded_program_executes_source {text : Text} {program : Program}
    (assembled : Program.assemble text = .ok program) (machine : Machine)
    (fits : program.words.length ≤ machine.memory.capacity) :
    ∃ loaded, machine.load program = .ok loaded ∧
      ∀ state number, Reaches loaded state →
        state.memory.read state.pc = loaded.memory.read state.pc →
        state.sourceLine state.pc = some number →
        ∃ index line, state.pc.value = Int.ofNat index ∧ 0 < number ∧
          (Text.lines text)[number - 1]? = some line ∧
          (tokenLines text)[index]? = some (tokens line, number) ∧
          Legal (regionAt text index) (tokens line) ∧
          ∀ content, Reads (regionAt text index) (tokens line) content →
            state.Follows content := by
  obtain ⟨loaded, load⟩ := exists_load_eq_ok fits
  refine ⟨loaded, load, ?_⟩
  intro state number reached same shown
  obtain ⟨index, line, located, positive, written, placed⟩ :=
    exists_line_of_sourceLine assembled load (reached.sourceLine shown)
  obtain ⟨word, found, prescribed⟩ := prescribes_of_assemble assembled placed
  have legal := legal_iff_exists_prescribes.mpr ⟨word, prescribed⟩
  refine ⟨index, line, located, positive, written, placed, legal, ?_⟩
  have inside : state.pc.InRange loaded.memory.capacity := by
    have below := (List.getElem?_eq_some_iff.mp found).1
    rw [Word.InRange, located, capacity_of_load load]
    simp only [Int.ofNat_eq_natCast]
    omega
  have fetched : state.memory.read state.pc = .ok word := by
    rw [same, Memory.read_of_inRange inside, located, Int.ofNat_eq_natCast,
      Int.toNat_natCast, cell_of_load load found]
  intro content reads
  obtain ⟨other, held⟩ := content.exists_occupies
  have prescribed' : Prescribes (regionAt text index) (tokens line) other :=
    ⟨content, reads, held⟩
  rw [prescribed'.unique prescribed] at held
  exact follows_of_read fetched held

/-- The second step overwrites cell zero of the program, and line five is
executed as written all the same. -/
theorem loaded_program_executes_source_of_overwritten :
    let text : Text :=
      ['l', 'o', 'a', 'd', 'c', ' ', '0', '\n', '2', 'A', '\n', '#', '\n',
        's', 't', 'o', 'r', 'e', ' ', '1', ' ', '0', '\n',
        'A', 'd', 'd', ' ', '0', ' ', '7', '\n', 'h', 'a', 'l', 't']
    ∃ program loaded, Program.assemble text = .ok program ∧
      (new Config.defaults).load program = .ok loaded ∧
      let state := loaded.after [.step, .step]
      state.memory.cell 0 ≠ loaded.memory.cell 0 ∧
        state.sourceLine state.pc = some 5 ∧
        state.Follows (.instruction ⟨.add, 0, 7⟩) := by
  intro text
  have assembled : Program.assemble text =
      .ok ⟨[0x200, 0x2A, 0x310, 0x407, 0], some [1, 2, 4, 5, 6]⟩ := rfl
  obtain ⟨loaded, load, executes⟩ := loaded_program_executes_source assembled
    (new Config.defaults) (by decide)
  have reached : Reaches loaded (loaded.after [.step, .step]) :=
    .perform (.perform .refl (not_replaces_step _)) (not_replaces_step _)
  refine ⟨_, loaded, assembled, load, ?_⟩
  cases load
  obtain ⟨index, line, located, positive, written, placed, legal, follows⟩ :=
    executes _ 5 reached rfl rfl
  refine ⟨by decide, rfl, follows _ ?_⟩
  have third : 3 = index := Int.ofNat.inj located
  subst third
  have entry : tokens line = [['A', 'd', 'd'], ['0'], ['7']] :=
    (congrArg Prod.fst (Option.some.inj placed)).symm
  have region : regionAt text 3 = .instructions := by
    rw [regionAt, position_eq_foldl (by decide)]
    rfl
  rw [entry, region]
  exact .binary rfl rfl (register?_eq_some_iff_names.mp rfl)
    (register?_eq_some_iff_names.mp rfl)

end WordMachine.Machine
