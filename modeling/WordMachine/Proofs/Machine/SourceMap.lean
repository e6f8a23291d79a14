import WordMachine.Proofs.Machine.History

namespace WordMachine

/-! The source lines of a machine are those of the program it holds, which is the
last one that was put in place, until a reset. -/

namespace Program

variable {program : Program}

/-- A program that has a line for each word, in increasing order, or no lines. -/
def Numbered (program : Program) : Prop :=
  ∀ lines, program.lines = some lines →
    lines.length = program.words.length ∧ lines.Pairwise (· < ·)

private theorem numbered_of_assemble {text : Text}
    (assembled : assemble text = .ok program) : program.Numbered := by
  intro lines recorded
  rw [Assembly.lines_of_assemble assembled] at recorded
  cases recorded
  refine ⟨?_, Assembly.increasing_tokenLines text⟩
  rw [List.length_map, Assembly.length_words_of_assemble assembled]

theorem numbered_of_lines_eq_none (unmapped : program.lines = none) :
    program.Numbered := by
  intro lines recorded
  cases unmapped.symm.trans recorded

theorem Source.numbered {source : Source} (made : source.program = .ok program) :
    program.Numbered := by
  cases source with
  | assembly text => exact numbered_of_assemble made
  | image text => exact numbered_of_lines_eq_none (lines_of_ofHexImage made)
  | words listed =>
      cases made
      exact numbered_of_lines_eq_none rfl

end Program

namespace Hosted

variable {start state : Hosted} {history : List Request} {program : Program}

theorem Installs.exists_source {request : Request}
    (installs : Installs state request program) :
    ∃ source : Program.Source, source.program = .ok program := by
  induction installs with
  | load made load => exact ⟨_, made⟩
  | file load =>
      obtain ⟨found, _⟩ := Machine.loadFile_eq_ok load
      obtain ⟨text, _, parsed⟩ := ProgramFile.find_eq_ok_iff.mp found
      rw [ProgramFile.parse] at parsed
      split at parsed
      · exact ⟨.assembly text, parsed⟩
      · exact ⟨.image text, parsed⟩
  | line command installs induction => exact induction

theorem Installs.unique {request : Request} {first second : Program}
    (installs : Installs state request first)
    (installs' : Installs state request second) : first = second := by
  induction installs with
  | load made load =>
      cases installs' with
      | load made' load' => exact Except.ok.inj (made.symm.trans made')
  | file load =>
      cases installs' with
      | file load' =>
          cases load.symm.trans load'
          rfl
  | line command installs induction =>
      cases installs' with
      | line command' installs' =>
          cases command.symm.trans command'
          exact induction installs'

/-- The program that was put in place last, if the machine was not reset since. -/
inductive Holds (start : Hosted) : List Request → Program → Prop
  | installed {history : List Request} {request : Request} {program : Program}
      (installs : Installs (start.after history) request program) :
      Holds start (history ++ [request]) program
  | kept {history : List Request} {request : Request} {program : Program}
      (holds : Holds start history program) (noReset : ¬ request.Resets)
      (noLoad : ∀ other, ¬ Installs (start.after history) request other) :
      Holds start (history ++ [request]) program

theorem holds_concat_iff {request : Request} :
    Holds start (history ++ [request]) program ↔
      Installs (start.after history) request program ∨
        Holds start history program ∧ ¬ request.Resets ∧
          ∀ other, ¬ Installs (start.after history) request other := by
  constructor
  · intro holds
    generalize same : history ++ [request] = whole at holds
    cases holds with
    | installed installs =>
        obtain ⟨rfl, last⟩ := List.append_inj' same rfl
        cases last
        exact .inl installs
    | kept holds noReset noLoad =>
        obtain ⟨rfl, last⟩ := List.append_inj' same rfl
        cases last
        exact .inr ⟨holds, noReset, noLoad⟩
  · rintro (installs | ⟨holds, noReset, noLoad⟩)
    · exact .installed installs
    · exact .kept holds noReset noLoad

theorem Holds.unique {other : Program} (holds : Holds start history program)
    (holds' : Holds start history other) : program = other := by
  induction holds with
  | installed installs =>
      rcases holds_concat_iff.mp holds' with installs' | ⟨_, _, noLoad⟩
      · exact installs.unique installs'
      · exact absurd installs (noLoad _)
  | kept holds noReset noLoad induction =>
      rcases holds_concat_iff.mp holds' with installs' | ⟨holds', _, _⟩
      · exact absurd installs' (noLoad other)
      · exact induction holds'

theorem Holds.exists_installs (holds : Holds start history program) :
    ∃ before request, Installs (start.after before) request program := by
  induction holds with
  | installed installs => exact ⟨_, _, installs⟩
  | kept holds noReset noLoad induction => exact induction

theorem Holds.fits (holds : Holds start history program) :
    program.words.length ≤ start.machine.memory.capacity := by
  obtain ⟨before, request, installs⟩ := holds.exists_installs
  have fits := Machine.exists_load_eq_ok_iff.mp ⟨_, machine_of_installs installs⟩
  rwa [capacity_after] at fits

theorem Holds.numbered (holds : Holds start history program) :
    program.Numbered := by
  obtain ⟨before, request, installs⟩ := holds.exists_installs
  obtain ⟨source, made⟩ := installs.exists_source
  exact source.numbered made

theorem Holds.lines (holds : Holds start history program) :
    (start.after history).machine.lines = program.lines := by
  induction holds with
  | installed installs =>
      rw [after_concat]
      exact Machine.lines_of_load (machine_of_installs installs)
  | kept holds noReset noLoad induction =>
      rw [after_concat, ← induction]
      exact congrArg Machine.Frame.lines (frame_serve noLoad noReset)

theorem lines_of_not_holds (unmapped : start.machine.lines = none)
    (unheld : ∀ program, ¬ Holds start history program) :
    (start.after history).machine.lines = none := by
  induction history using List.reverseRecOn with
  | nil => exact unmapped
  | append_singleton history request induction =>
      rw [after_concat]
      cases serves (start.after history) request with
      | installed installs load => exact absurd (.installed installs) (unheld _)
      | reset resets same => rw [same, Machine.reset]
      | kept noLoad noReset frame =>
          refine (congrArg Machine.Frame.lines frame).trans (induction ?_)
          intro program holds
          exact unheld program (.kept holds noReset noLoad)

theorem exists_holds_of_sourceLine (unmapped : start.machine.lines = none)
    {address : Word} {number : Nat}
    (shown : (start.after history).machine.sourceLine address = some number) :
    ∃ program lines, Holds start history program ∧
      program.lines = some lines ∧ 0 ≤ address.value ∧
      lines[address.value.toNat]? = some number := by
  obtain ⟨nonnegative, lines, recorded, found⟩ :=
    Machine.sourceLine_eq_some_iff.mp shown
  by_cases held : ∃ program, Holds start history program
  · obtain ⟨program, holds⟩ := held
    exact ⟨program, lines, holds, holds.lines.symm.trans recorded, nonnegative,
      found⟩
  · rw [lines_of_not_holds unmapped (not_exists.mp held)] at recorded
    cases recorded

structure Mapped (machine : Machine) (config : Config)
    (held : Program → Prop) : Prop where
  configured : machine.config = config
  sized : machine.memory.capacity = config.capacity
  single : ∀ program other, held program → held other → program = other
  lines : ∀ program, held program → machine.lines = program.lines
  cleared : (∀ program, ¬ held program) → machine.lines = none
  below : ∀ address number, machine.sourceLine address = some number →
    address.InRange config.capacity ∧
      ∃ program, held program ∧ address.value < program.words.length
  increasing : ∀ first second number number',
    machine.sourceLine first = some number →
    machine.sourceLine second = some number' →
    first.value < second.value → number < number'
  negative : ∀ address : Word, address.value < 0 →
    machine.sourceLine address = none

/-- However its requests went, a machine has the size it was made with and the
source lines of the program it holds. -/
theorem history_determines_source_lines (config : Config) (world : World)
    (history : List Request) :
    let start : Hosted := ⟨.new config, world⟩
    Mapped (start.after history).machine config (Holds start history) := by
  intro start
  constructor
  case configured => exact config_after start history
  case sized => exact capacity_after start history
  case single => exact fun program other holds holds' => holds.unique holds'
  case lines => exact fun program holds => holds.lines
  case cleared => exact lines_of_not_holds rfl
  case below =>
    intro address number shown
    obtain ⟨program, lines, holds, recorded, nonnegative, found⟩ :=
      exists_holds_of_sourceLine rfl shown
    have fits : program.words.length ≤ config.capacity := holds.fits
    have length := (holds.numbered lines recorded).1
    have inside := (List.getElem?_eq_some_iff.mp found).1
    have below : address.value < program.words.length := by omega
    exact ⟨⟨nonnegative, by omega⟩, program, holds, below⟩
  case increasing =>
    intro first second number number' shown shown' before
    obtain ⟨program, lines, holds, recorded, nonnegative, found⟩ :=
      exists_holds_of_sourceLine rfl shown
    obtain ⟨_, lines', recorded', found'⟩ :=
      Machine.sourceLine_eq_some_iff.mp shown'
    cases (holds.lines.trans recorded).symm.trans recorded'
    obtain ⟨inside, rfl⟩ := List.getElem?_eq_some_iff.mp found
    obtain ⟨inside', rfl⟩ := List.getElem?_eq_some_iff.mp found'
    have increasing := (holds.numbered lines recorded).2
    exact List.pairwise_iff_getElem.mp increasing _ _ inside inside' (by omega)
  case negative =>
    intro address negative
    exact if_neg (Int.not_le.mpr negative)

end Hosted

end WordMachine
