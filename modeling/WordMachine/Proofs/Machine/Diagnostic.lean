import WordMachine.Proofs.Console.Diagnostic
import WordMachine.Proofs.Isa.Diagnostic
import WordMachine.Proofs.Machine.History

namespace WordMachine

/-! The diagnostic of a machine is what the last step raised that was attempted since
the machine was made or reset. The journal has all that was raised, in order. -/

open Console

namespace Machine

def Raises (machine : Machine) (diagnostic : Diagnostic) : Prop :=
  Isa.Raises (.of machine.processor.cpu machine.memory) diagnostic

theorem diagnostic_step_eq_some_iff {machine : Machine} {diagnostic : Diagnostic} :
    machine.step.2.diagnostic = some diagnostic ↔ machine.Raises diagnostic :=
  Isa.diagnostic_step_eq_some_iff

private theorem diagnostic_of_fails {machine : Machine} {error : MemoryError}
    (fails : machine.step.1 = .error error) : machine.step.2.diagnostic = none :=
  Isa.diagnostic_of_result_eq_error fails

variable {machine : Machine} {path : Path} {world : World}

theorem diagnostic_load {loaded : Machine} {program : Program}
    (load : machine.load program = .ok loaded) :
    loaded.diagnostic = machine.diagnostic :=
  (loaded_of_load load).diagnostic

theorem diagnostic_loadFile :
    ((machine.loadFile path : StateM World _) world).1.2.diagnostic =
      machine.diagnostic := by
  rcases load : (machine.loadFile path : StateM World _) world with
    ⟨⟨error | file, after⟩, world'⟩
  · exact congrArg Machine.diagnostic (eq_of_loadFile_eq_error load)
  · exact diagnostic_load (loadFile_eq_ok load).2

end Machine

def Event.diagnostic? : Event → Option Diagnostic
  | .raised diagnostic => some diagnostic
  | _ => none

/-- A world whose journal has grown without a record of a fault. -/
def World.Silent (world world' : World) : Prop :=
  ∃ events : List Event, world'.journal = world.journal ++ events ∧
    ∀ event ∈ events, event.diagnostic? = none

section Silent

variable {world world' : World} {config : Config} {path : Path} {program : Program}

theorem World.silent_refl (world : World) : world.Silent world :=
  ⟨[], Array.appendList_nil.symm, List.forall_mem_nil _⟩

theorem World.Silent.note {event : Event} (silent : world.Silent world')
    (other : event.diagnostic? = none) : world.Silent (world'.note event) := by
  obtain ⟨events, journal, others⟩ := silent
  refine ⟨events ++ [event], ?_, ?_⟩
  · rw [World.note_eq_noted, World.noted, journal, World.append_append]
  intro recorded member
  rcases List.mem_append.mp member with before | last
  · exact others recorded before
  · rw [List.mem_singleton.mp last]
    exact other

theorem World.Silent.of_journal {world'' : World} (silent : world.Silent world')
    (same : world''.journal = world'.journal) : world.Silent world'' := by
  obtain ⟨events, journal, others⟩ := silent
  exact ⟨events, same.trans journal, others⟩

private theorem silent_complete : world.Silent
    ((ProgramFile.complete config path program : StateM World _) world).2 := by
  have silent := world.silent_refl
  by_cases saves : ProgramFile.Saves config path
  · rw [ProgramFile.complete_of_saves saves]
    cases ProgramFile.saved world.files path program with
    | ok files => exact silent.note rfl
    | error fault => exact (silent.note rfl).note rfl
  · rw [ProgramFile.complete]
    by_cases assembly : ProgramFile.isAssembly config path = true
    · have unsaved : ¬ config.persist = true := fun persist => saves ⟨assembly, persist⟩
      rw [if_pos assembly, if_neg unsaved]
      exact silent.note rfl
    · rw [if_neg assembly]
      exact silent.note rfl

theorem silent_loadFile {machine : Machine} : world.Silent
    ((machine.loadFile path : StateM World _) world).2 := by
  cases found : ProgramFile.find world.files machine.config path with
  | error error =>
      rw [Machine.loadFile_of_error found]
      exact world.silent_refl
  | ok program =>
      have silent := @silent_complete world machine.config path program
      rw [Machine.loadFile_of_ok found]
      cases machine.load program with
      | error error => exact silent
      | ok loaded => exact silent.note rfl

end Silent

inductive Request.Executes : Request → Prop
  | step {other : ∀ program, Machine.Operation.step ≠ .load program} :
      Executes (.operate .step other)
  | run {budget : Nat} {other : ∀ program, Machine.Operation.run budget ≠ .load program} :
      Executes (.operate (.run budget) other)
  | runToHalt {other : ∀ program, Machine.Operation.runToHalt ≠ .load program} :
      Executes (.operate .runToHalt other)
  | line {text : Text} (stepping : (Command.ofLine text).Stepping) :
      Executes (.line text)

theorem Request.not_stepping_of_not_executes {text : Text}
    (idle : ¬ (Request.line text).Executes) : ¬ (Command.ofLine text).Stepping :=
  fun stepping => idle (.line stepping)

namespace Hosted

variable {start state : Hosted} {history : List Request} {request : Request}
  {machine : Machine} {diagnostic : Diagnostic}

/-- The number of steps that a request attempts. -/
def attempted (state : Hosted) : Request → Nat
  | .operate .step _ => 1
  | .operate (.run budget) _ => state.machine.attempted none budget
  | .operate .runToHalt _ =>
      state.machine.attempted none state.machine.config.stepBudget
  | .line text =>
      state.machine.attempted state.world.room
        ((Command.ofLine text).series state.machine)
  | _ => 0

theorem attempted_of_not_executes (idle : ¬ request.Executes) :
    state.attempted request = 0 := by
  cases request with
  | operate operation other =>
      cases operation with
      | step => exact absurd .step idle
      | run budget => exact absurd .run idle
      | runToHalt => exact absurd .runToHalt idle
      | _ => rfl
  | line text =>
      have stepless := Request.not_stepping_of_not_executes idle
      rw [attempted, Command.series_of_not_stepping state.machine stepless]
      rfl
  | _ => rfl

private theorem not_executes_of_resets (resets : request.Resets) :
    ¬ request.Executes := by
  intro executes
  cases resets with
  | operate => cases executes
  | line command =>
      cases executes with
      | line stepping =>
          rw [command] at stepping
          cases stepping

theorem world_operate (operation : Machine.Operation)
    (other : ∀ program, operation ≠ .load program) :
    (state.serve (.operate operation other)).2.world =
      state.world.noted (state.machine.events operation) :=
  congrArg Prod.snd (noteAll_world (state.machine.events operation) state.world)

/-- A request that executes instructions goes on by the steps it attempts. -/
theorem serve_of_executes (executes : request.Executes) :
    let steps := state.attempted request
    let served := (state.serve request).2
    served.machine = state.machine.afterSteps steps ∧
      served.world.journal = state.world.journal ++
        (state.machine.trail steps).flatMap Machine.stepEvents := by
  have journal {operation : Machine.Operation} {steps : Nat}
      {other : ∀ program, operation ≠ .load program}
      (events : state.machine.events operation =
        (state.machine.trail steps).flatMap Machine.stepEvents) :
      (state.serve (.operate operation other)).2.world.journal =
        state.world.journal ++
          (state.machine.trail steps).flatMap Machine.stepEvents := by
    rw [world_operate, events, World.noted]
  intro steps served
  cases executes with
  | step => exact ⟨rfl, journal (List.append_nil _).symm⟩
  | run =>
      exact ⟨state.machine.run_eq_afterSteps _, journal (state.machine.runEvents_eq _)⟩
  | runToHalt =>
      exact ⟨state.machine.run_eq_afterSteps _, journal (state.machine.runEvents_eq _)⟩
  | line stepping =>
      obtain ⟨after, recorded, _⟩ :=
        @on_stepping_line state.machine state.world _ stepping
      exact ⟨after, recorded⟩

theorem diagnostic_of_not_executes (idle : ¬ request.Executes)
    (noReset : ¬ request.Resets) :
    (state.serve request).2.machine.diagnostic = state.machine.diagnostic := by
  cases request with
  | load source =>
      rw [machine_load]
      cases source.program with
      | error error => rfl
      | ok program =>
          dsimp only
          rw [Machine.install_world]
          cases load : state.machine.load program with
          | error error => rfl
          | ok loaded => exact Machine.diagnostic_load load
  | file path => exact Machine.diagnostic_loadFile
  | operate operation other =>
      cases operation with
      | load program => exact absurd rfl (other program)
      | step => exact absurd .step idle
      | run budget => exact absurd .run idle
      | runToHalt => exact absurd .runToHalt idle
      | reset => exact absurd .operate noReset
      | _ => rfl
  | line text =>
      have stepless := Request.not_stepping_of_not_executes idle
      have worked := (@on_idle_line state.machine state.world text stepless).1
      refine (congrArg Machine.diagnostic worked).trans ?_
      cases command : Command.ofLine text with
      | load path => exact Machine.diagnostic_loadFile
      | reset => exact absurd (.line command) noReset
      | step count => exact absurd (command ▸ .step) stepless
      | run => exact absurd (command ▸ .run) stepless
      | _ => rfl
  | surround world => rfl

theorem silent_serve (idle : ¬ request.Executes)
    (inside : ∀ world, request ≠ .surround world) :
    state.world.Silent (state.serve request).2.world := by
  have silent := state.world.silent_refl
  cases request with
  | load source =>
      rw [serve]
      cases source.program with
      | error error => exact silent
      | ok program =>
          have installed : state.world.Silent
              ((state.machine.install program : StateM World _) state.world).2 := by
            rw [Machine.install_world]
            cases state.machine.load program with
            | error error => exact silent
            | ok loaded => exact silent.note rfl
          exact installed
  | file path => exact silent_loadFile
  | operate operation other =>
      rw [world_operate]
      cases operation with
      | load program => exact absurd rfl (other program)
      | step => exact absurd .step idle
      | run budget => exact absurd .run idle
      | runToHalt => exact absurd .runToHalt idle
      | _ =>
          change state.world.Silent (state.world.noted [])
          rwa [World.noted_nil]
  | line text =>
      have stepless := Request.not_stepping_of_not_executes idle
      refine World.Silent.of_journal ?_
        (@on_idle_line state.machine state.world text stepless).2
      cases command : Command.ofLine text with
      | load path => exact silent_loadFile
      | step count => exact absurd (command ▸ .step) stepless
      | run => exact absurd (command ▸ .run) stepless
      | _ => exact silent
  | surround world => exact absurd rfl (inside world)

/-- The last step that was attempted since the start or the last reset, by the
machine that attempted it. -/
inductive Attempted (start : Hosted) : List Request → Machine → Prop
  | stepped {history : List Request} {request : Request} {steps : Nat}
      (last : (start.after history).attempted request = steps + 1) :
      Attempted start (history ++ [request])
        ((start.after history).machine.afterSteps steps)
  | kept {history : List Request} {request : Request} {machine : Machine}
      (idle : (start.after history).attempted request = 0)
      (noReset : ¬ request.Resets) (before : Attempted start history machine) :
      Attempted start (history ++ [request]) machine

theorem not_attempted_nil : ¬ Attempted start [] machine := by
  intro attempted
  generalize same : [] = whole at attempted
  cases attempted with
  | stepped => exact absurd same (by simp)
  | kept => exact absurd same (by simp)

theorem attempted_concat_iff :
    Attempted start (history ++ [request]) machine ↔
      (∃ steps, (start.after history).attempted request = steps + 1 ∧
        machine = (start.after history).machine.afterSteps steps) ∨
      (start.after history).attempted request = 0 ∧ ¬ request.Resets ∧
        Attempted start history machine := by
  constructor
  · intro attempted
    generalize same : history ++ [request] = whole at attempted
    cases attempted with
    | stepped last =>
        obtain ⟨rfl, served⟩ := List.append_inj' same rfl
        cases served
        exact .inl ⟨_, last, rfl⟩
    | kept idle noReset before =>
        obtain ⟨rfl, served⟩ := List.append_inj' same rfl
        cases served
        exact .inr ⟨idle, noReset, before⟩
  · rintro (⟨steps, last, rfl⟩ | ⟨idle, noReset, before⟩)
    · exact .stepped last
    · exact .kept idle noReset before

private theorem not_attempted_of_resets (resets : request.Resets) :
    ¬ Attempted start (history ++ [request]) machine := by
  have idle := @attempted_of_not_executes (start.after history) request
    (not_executes_of_resets resets)
  intro attempted
  rcases attempted_concat_iff.mp attempted with ⟨steps, last, _⟩ | ⟨_, noReset, _⟩
  · cases idle.symm.trans last
  · exact noReset resets

theorem Attempted.unique {other : Machine} (attempted : Attempted start history machine)
    (attempted' : Attempted start history other) : machine = other := by
  induction attempted with
  | stepped last =>
      rcases attempted_concat_iff.mp attempted' with ⟨steps, last', rfl⟩ | ⟨idle, _⟩
      · rw [Nat.succ.inj (last.symm.trans last')]
      · cases last.symm.trans idle
  | kept idle noReset before induction =>
      rcases attempted_concat_iff.mp attempted' with ⟨steps, last, _⟩ | ⟨_, _, before'⟩
      · cases idle.symm.trans last
      · exact induction before'

theorem diagnostic_serve (noReset : ¬ request.Resets) :
    (state.serve request).2.machine.diagnostic =
      (state.machine.afterSteps (state.attempted request)).diagnostic := by
  by_cases executes : request.Executes
  · rw [(serve_of_executes executes).1]
  · rw [diagnostic_of_not_executes executes noReset,
      attempted_of_not_executes executes]
    rfl

theorem diagnostic_after_iff (unraised : start.machine.diagnostic = none) :
    (start.after history).machine.diagnostic = some diagnostic ↔
      ∃ machine, Attempted start history machine ∧ machine.Raises diagnostic := by
  induction history using List.reverseRecOn with
  | nil =>
      apply iff_of_false
      · intro raised
        cases unraised.symm.trans raised
      · intro attempted
        obtain ⟨machine, before, _⟩ := attempted
        exact not_attempted_nil before
  | append_singleton history request induction =>
      rw [after_concat]
      by_cases resets : request.Resets
      · rw [machine_of_resets resets]
        apply iff_of_false nofun
        intro attempted
        obtain ⟨machine, last, _⟩ := attempted
        exact not_attempted_of_resets resets last
      · rw [diagnostic_serve resets]
        cases count : (start.after history).attempted request with
        | zero =>
            refine induction.trans (exists_congr fun machine => and_congr_left' ?_)
            rw [attempted_concat_iff, count]
            simp [resets]
        | succ steps =>
            rw [Machine.afterSteps_succ, Machine.diagnostic_step_eq_some_iff]
            constructor
            · intro raises
              exact ⟨_, .stepped count, raises⟩
            · intro attempted
              obtain ⟨machine, last, raises⟩ := attempted
              rwa [last.unique (.stepped count)] at raises

/-- What a machine keeps, what its journal records and what its console tells of
the faults of the steps that a history of requests attempts. -/
structure Accounts (start : Hosted) (history : List Request) : Prop where
  stored : ∀ diagnostic,
    (start.after history).machine.diagnostic = some diagnostic ↔
      ∃ machine, Attempted start history machine ∧ machine.Raises diagnostic
  single : ∀ machine other, Attempted start history machine →
    Attempted start history other → machine = other
  unmoved : ∀ request, ¬ request.Executes → ¬ request.Resets →
    ((start.after history).serve request).2.machine.diagnostic =
      (start.after history).machine.diagnostic
  silent : ∀ request, ¬ request.Executes → (∀ world, request ≠ .surround world) →
    (start.after history).world.Silent ((start.after history).serve request).2.world
  recorded : ∀ request, request.Executes →
    let state := start.after history
    let served := (state.serve request).2
    let raised := (state.machine.trail (state.attempted request)).flatMap
      Machine.faults
    ∃ events : List Event, served.world.journal = state.world.journal ++ events ∧
      warnings events = raised.map Event.raised ∧
      ∀ text, request = .line text →
        served.world.output = state.world.output ++ cut state.world.room
          (lineBytes ((warnings events).map Event.message ++
            (Command.ofLine text).closing state.machine))

private theorem output_of_stepping {text : Text}
    (stepping : (Command.ofLine text).Stepping) :
    (state.serve (.line text)).2.world.output = state.world.output ++
      cut state.world.room (lineBytes
        ((((state.machine.trail (state.attempted (.line text))).flatMap
            Machine.faults).map Event.raised).map Event.message ++
          (Command.ofLine text).closing state.machine)) := by
  obtain ⟨_, _, output⟩ := @on_stepping_line state.machine state.world text stepping
  rw [lineBytes_append, List.map_map]
  exact output

/-- Diagnostics are neither lost nor repeated nor stale. Whatever a machine has been
through, it keeps what the last step raised that was attempted since it was made or
reset, and no other request changes that. The records of a request that executes
instructions warn of the faults that its steps raise, once each and in order. On the
console they are told so too, before the line tells how it ended. -/
theorem history_accounts_for_diagnostics (config : Config) (world : World)
    (history : List Request) :
    (∀ (machine : Machine) diagnostic,
      machine.step.2.diagnostic = some diagnostic ↔ machine.Raises diagnostic) ∧
    (∀ (machine : Machine) error, machine.step.1 = .error error →
      machine.step.2.diagnostic = none) ∧
    Accounts ⟨.new config, world⟩ history := by
  refine ⟨fun _ _ => Machine.diagnostic_step_eq_some_iff,
    fun _ _ => Machine.diagnostic_of_fails, ?_⟩
  constructor
  case stored => exact fun _ => diagnostic_after_iff rfl
  case single => exact fun _ _ => Attempted.unique
  case unmoved => exact fun _ => diagnostic_of_not_executes
  case silent => exact fun _ => silent_serve
  case recorded =>
    intro request executes state served raised
    have warned := state.machine.warnings_trail (state.attempted request)
    refine ⟨_, (serve_of_executes executes).2, warned, ?_⟩
    rintro text rfl
    rw [warned]
    cases executes with
    | line stepping => exact output_of_stepping stepping

end Hosted

end WordMachine
