import WordMachine.Proofs.Machine.Load

namespace WordMachine

/-! A `loadc` in an assembled image has its constant behind it, unless its line is
the last one with tokens. The assembler does not ask for the constant there. -/

namespace Assembly

/-- A line with a `loadc` among the instructions, by its place among the lines
with tokens. -/
def LoadsConstant (text : Text) (index : Nat) : Prop :=
  ∃ found number, (tokenLines text)[index]? = some (found, number) ∧
    regionAt text index = .instructions ∧
    (found.map Text.lower).head? = some Opcode.loadc.mnemonic

variable {text : Text} {index : Nat}

theorem regionAt_succ_eq_constant_iff :
    regionAt text (index + 1) = .constant ↔ LoadsConstant text index := by
  constructor
  · intro awaited
    obtain ⟨_, previous, directly, instructions, loads⟩ :=
      position_eq_constant_iff.mp awaited
    cases Nat.succ.inj directly
    cases line : (tokenLines text)[index]? with
    | none =>
        rw [List.getD_eq_getElem?_getD, List.getElem?_map, line] at loads
        cases loads
    | some entry =>
        obtain ⟨found, number⟩ := entry
        rw [found_of_tokenLines line] at loads
        exact ⟨found, number, line, instructions, loads⟩
  · intro loads
    obtain ⟨found, number, line, instructions, spelled⟩ := loads
    have noEnd : ¬ endsInstructions found = true := by
      intro ends
      rw [endsInstructions_iff.mp ends] at spelled
      cases spelled
    rw [regionAt, position_succ, found_of_tokenLines line, ← regionAt,
      instructions, Region.after, if_neg noEnd,
      if_pos (awaitsConstant_iff.mpr spelled)]

theorem Reads.of_loadc {found : List Text} {content : Content}
    (reads : Reads .instructions found content)
    (spelled : (found.map Text.lower).head? = some Opcode.loadc.mnemonic) :
    ∃ mnemonic operand target, found = [mnemonic, operand] ∧
      Names operand target ∧ content = .instruction ⟨.loadc, target, 0⟩ := by
  have same {mnemonic : Text} {opcode : Opcode}
      (read : mnemonic.lower = opcode.mnemonic)
      (first : some mnemonic.lower = some Opcode.loadc.mnemonic) :
      opcode = .loadc :=
    Opcode.mnemonic_inj.mp (read.symm.trans (Option.some.inj first))
  cases reads with
  | halt read => exact absurd (same read spelled) (by decide)
  | unary read arity named =>
      cases same read spelled
      exact ⟨_, _, _, rfl, named, rfl⟩
  | binary read arity named named' =>
      cases same read spelled
      cases arity
  | lone foreign literal => exact absurd (Option.some.inj spelled) (foreign .loadc)

theorem Prescribes.of_constant {found : List Text} {word : Word}
    (prescribed : Prescribes .constant found word) :
    ∃ token, found = [token] ∧ Literal token word :=
  soleConstant_eq_ok_iff.mp (constantLine_eq_ok_iff.mpr prescribed)

end Assembly

namespace Machine

open Assembly Isa

/-- A `loadc` on its line, and the constant on the next line with tokens. -/
structure Supplies (text : Text) (program : Program) (index : Nat)
    (target : Register) (constant : Word) : Prop where
  line : ∃ mnemonic operand number,
    (tokenLines text)[index]? = some ([mnemonic, operand], number) ∧
      mnemonic.lower = Opcode.loadc.mnemonic ∧ Names operand target
  word : program.words[index]? = some (Instruction.encode ⟨.loadc, target, 0⟩)
  next : ∃ token number,
    (tokenLines text)[index + 1]? = some ([token], number) ∧
      Literal token constant
  constant : program.words[index + 1]? = some constant

section Assembled

variable {text : Text} {program : Program} {index : Nat} {target : Register}
  {constant : Word}

private theorem exists_supplies_of_loadc
    (assembled : Program.assemble text = .ok program)
    (loads : LoadsConstant text index)
    (followed : index + 1 < program.words.length) :
    ∃ target constant, Supplies text program index target constant := by
  have awaited := regionAt_succ_eq_constant_iff.mpr loads
  obtain ⟨found, number, line, instructions, spelled⟩ := loads
  obtain ⟨word, placed, content, reads, held⟩ :=
    prescribes_of_assemble assembled line
  rw [instructions] at reads
  obtain ⟨mnemonic, operand, target, rfl, named, rfl⟩ := reads.of_loadc spelled
  rw [Content.occupies_instruction_iff.mp held] at placed
  rw [length_words_of_assemble assembled] at followed
  obtain ⟨⟨next, number'⟩, line'⟩ : ∃ entry,
      (tokenLines text)[index + 1]? = some entry :=
    ⟨_, List.getElem?_eq_getElem followed⟩
  obtain ⟨constant, placed', prescribed⟩ :=
    prescribes_of_assemble assembled line'
  rw [awaited] at prescribed
  obtain ⟨token, rfl, literal⟩ := prescribed.of_constant
  exact ⟨target, constant,
    ⟨mnemonic, operand, number, line, Option.some.inj spelled, named⟩, placed,
    ⟨token, number', line', literal⟩, placed'⟩

private theorem nextOutcome_of_supplies
    (supplies : Supplies text program index target constant)
    {machine loaded : Machine} (load : machine.load program = .ok loaded)
    {address : Word} (located : address.value = index) :
    let state := loaded.setPc address
    let before := Observation.of state.processor.cpu state.memory
    ((address + 1).InRange loaded.memory.capacity →
      state.nextOutcome = .completed
        (((before.fetched constant).jump (address + 2)).assign target
          constant)) ∧
    (¬ (address + 1).InRange loaded.memory.capacity →
      state.nextOutcome = .failed before (address + 1)) := by
  intro state before
  have below := (List.getElem?_eq_some_iff.mp supplies.word).1
  have fits := exists_load_eq_ok_iff.mp ⟨loaded, load⟩
  have inside : address.InRange loaded.memory.capacity := by
    rw [Word.InRange, located, capacity_of_load load]
    omega
  have fetched : state.memory.read state.pc =
      .ok (Instruction.encode ⟨.loadc, target, 0⟩) := by
    have cell := cell_of_load load supplies.word
    refine (Memory.read_of_inRange inside).trans ?_
    rw [located, Int.toNat_natCast, cell]
  have executes : Executes before _ ⟨.loadc, target, 0⟩ state.nextOutcome :=
    executes_step fetched (Instruction.decode_encode _)
  constructor
  · intro next
    have following : (address + 1).value.toNat = index + 1 := by
      rw [value_add_one (by omega) next.1, located]
      omega
    have supplied : before.contents (address + 1) = constant := by
      rw [Observation.contents, following]
      exact cell_of_load load supplies.constant
    rw [← supplied]
    exact executes.unique (.loadc next)
  · intro beyond
    exact executes.unique (.loadcFails beyond)

end Assembled

/-- Every `loadc` of an assembled text but one on the last line with tokens has
its constant behind it. In a machine that was just loaded with the text, a step
on it loads that constant, or fails where its address wraps around. -/
theorem constant_follows_loadc_unless_text_ends {text : Text}
    {program : Program} (assembled : Program.assemble text = .ok program) :
    (regionAt text program.words.length ≠ .constant ↔
      ∀ index, LoadsConstant text index → index + 1 < program.words.length) ∧
    ∀ index, LoadsConstant text index → index + 1 < program.words.length →
      ∃ target constant, Supplies text program index target constant ∧
        ∀ (machine loaded : Machine) (address : Word),
          machine.load program = .ok loaded → address.value = index →
          let state := loaded.setPc address
          let before := Observation.of state.processor.cpu state.memory
          ((address + 1).InRange loaded.memory.capacity →
            state.nextOutcome = .completed
              (((before.fetched constant).jump (address + 2)).assign target
                constant)) ∧
          (¬ (address + 1).InRange loaded.memory.capacity →
            state.nextOutcome = .failed before (address + 1)) := by
  constructor
  · constructor
    · intro complete index loads
      obtain ⟨found, number, line, -⟩ := id loads
      have below := (List.getElem?_eq_some_iff.mp line).1
      rw [← length_words_of_assemble assembled] at below
      by_contra last
      have ended : index + 1 = program.words.length := by omega
      rw [← ended] at complete
      exact complete (regionAt_succ_eq_constant_iff.mpr loads)
    · intro followed awaited
      obtain ⟨index, ended⟩ : ∃ index, program.words.length = index + 1 := by
        obtain ⟨_, index, ended, -⟩ := position_eq_constant_iff.mp awaited
        exact ⟨index, ended.symm⟩
      rw [ended] at awaited followed
      have last := followed index (regionAt_succ_eq_constant_iff.mp awaited)
      omega
  · intro index loads followed
    obtain ⟨target, constant, supplies⟩ :=
      exists_supplies_of_loadc assembled loads followed
    refine ⟨target, constant, supplies, ?_⟩
    intro machine loaded address load located
    exact nextOutcome_of_supplies supplies load located

/-- A comment and a blank line may stand before the constant, and the constant may
spell a mnemonic. -/
theorem constant_follows_loadc_unless_text_ends_of_add :
    let text : Text :=
      ['l', 'o', 'a', 'd', 'C', ' ', '3', '\n', '#', ' ', '1', '\n', '\n',
        'a', 'd', 'd']
    ∃ loaded, Program.assemble text = .ok ⟨[0x230, 0xADD], some [1, 4]⟩ ∧
      (new Config.defaults).load ⟨[0x230, 0xADD], some [1, 4]⟩ = .ok loaded ∧
      LoadsConstant text 0 ∧
      ∃ target constant,
        Supplies text ⟨[0x230, 0xADD], some [1, 4]⟩ 0 target constant ∧
        loaded.nextOutcome.after.registers target = constant := by
  intro text
  have assembled : Program.assemble text =
      .ok ⟨[0x230, 0xADD], some [1, 4]⟩ := rfl
  obtain ⟨loaded, load⟩ := @exists_load_eq_ok (new Config.defaults)
    ⟨[0x230, 0xADD], some [1, 4]⟩ (by decide)
  have loads : LoadsConstant text 0 := ⟨_, 1, rfl, position_zero _, rfl⟩
  obtain ⟨target, constant, supplies, executes⟩ :=
    (constant_follows_loadc_unless_text_ends assembled).2 0 loads (by decide)
  refine ⟨loaded, assembled, load, loads, target, constant, supplies, ?_⟩
  have completed := (executes _ loaded 0 load rfl).1 (by
    rw [capacity_of_load load]
    decide)
  cases load
  exact (congrArg (fun outcome => outcome.after.registers target)
    completed).trans (Function.update_self ..)

/-- A `loadc` on the last line is assembled without a constant. A step on it
loads a cell outside the image, or fails where memory ends with the image. -/
theorem assemble_loadc_without_constant :
    let text : Text := ['l', 'o', 'a', 'd', 'c', ' ', '1', '\n']
    let program : Program := ⟨[0x210], some [1]⟩
    Program.assemble text = .ok program ∧ LoadsConstant text 0 ∧
      ¬ 0 + 1 < program.words.length ∧
      ((new Config.defaults).after [.load program]).step.1 = .ok .running ∧
      ((new { Config.defaults with capacity := 1 }).after
        [.load program]).step.1 = .error (.outOfRange 1 1) :=
  ⟨rfl, ⟨_, 1, rfl, position_zero _, rfl⟩, by decide, rfl, rfl⟩

end Machine

end WordMachine
