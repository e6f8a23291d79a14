import WordMachine.CommandLine.Run
import WordMachine.Proofs.CommandLine.Arguments
import WordMachine.Proofs.Console.Dialogue
import WordMachine.Proofs.Console.Stepping
import WordMachine.Proofs.Machine.Load

namespace WordMachine

/-! The program on the command line, when it is asked to run a file: what it prints,
what it complains about and how it exits. -/

private def World.seen (world : World) : Array UInt8 × Option Nat × String :=
  (world.output, world.room, world.complaints)

theorem World.complain_complain (world : World) (first second : String) :
    (world.complain first).complain second = world.complain (first ++ second) := by
  simp only [complain, String.append_assoc]

theorem World.complain_empty (world : World) : world.complain "" = world := by
  simp [complain]

theorem World.toList_output_shown {world : World} (text : String)
    (fresh : world.output = #[]) :
    (world.shown text).output.toList = Text.encode text.toList := by
  rw [shown, fresh, Array.toList_appendList, List.nil_append]

private theorem ProgramFile.seen_complete (config : Config) (path : Path)
    (program : Program) (world : World) :
    ((complete config path program : StateM World _) world).2.seen =
      world.seen := by
  by_cases saves : Saves config path
  · rw [complete_of_saves saves]
    cases saved world.files path program with
    | ok files => rfl
    | error fault => rfl
  · unfold complete
    split
    next assembly =>
        have unsaved : ¬ config.persist = true := fun persist =>
          saves ⟨assembly, persist⟩
        rw [if_neg unsaved]
        rfl
    next => rfl

private theorem Machine.seen_loadFile (machine : Machine) (path : Path)
    (world : World) :
    ((machine.loadFile path : StateM World _) world).2.seen = world.seen := by
  cases found : ProgramFile.find world.files machine.config path with
  | error error => rw [loadFile_of_error found]
  | ok program =>
      rw [loadFile_of_ok found, ← ProgramFile.seen_complete machine.config path
        program world]
      cases machine.load program with
      | error error => rfl
      | ok loaded => rfl

theorem ProgramFile.fst_complete_of_files {config : Config} {path : Path}
    {program : Program} {world world' : World} (same : world'.files = world.files) :
    ((complete config path program : StateM World _) world').1 =
      ((complete config path program : StateM World _) world).1 := by
  by_cases saves : Saves config path
  · rw [complete_of_saves saves, complete_of_saves saves, same]
    cases saved world.files path program with
    | ok files => rfl
    | error fault => rfl
  · rw [(complete_of_not_saves saves).1, (complete_of_not_saves saves).1]

/-- What a load comes to depends on nothing but the files. -/
theorem Machine.fst_loadFile_of_files {machine : Machine} {path : Path}
    {world world' : World} (same : world'.files = world.files) :
    ((machine.loadFile path : StateM World _) world').1 =
      ((machine.loadFile path : StateM World _) world).1 := by
  cases found : ProgramFile.find world.files machine.config path with
  | error error => rw [loadFile_of_error found, loadFile_of_error (same ▸ found)]
  | ok program =>
      rw [loadFile_of_ok found, loadFile_of_ok (same ▸ found)]
      cases machine.load program with
      | error error => rfl
      | ok loaded =>
          exact congrArg (fun file => (Except.ok file, loaded))
            (ProgramFile.fst_complete_of_files same)

theorem Machine.config_of_loadFile {machine loaded : Machine} {path : Path}
    {world : World} {file : ProgramFile}
    (load : ((machine.loadFile path : StateM World _) world).1 =
      (.ok file, loaded)) : loaded.config = machine.config :=
  config_of_load (loadFile_eq_ok (Prod.ext load rfl)).2

namespace CommandLine

open Console (Session Command)

def saveWarning (file : ProgramFile) : String :=
  match file.unsaved with
  | some fault => s!"warning: assembled words were not saved: {fault.message}\n"
  | none => ""

def budgetWarning (budget : Nat) : Status → String
  | .running => s!"warning: step budget of {budget} exhausted\n"
  | .halted => ""

@[simp] theorem budgetWarning_halted (budget : Nat) :
    budgetWarning budget .halted = "" := rfl

variable {Given : Type} {reader : Reader Given} {lookup : String → Option Text}
  {given : List Given} {input : Bytes} {world : World} {arguments : Arguments}
  {config : Config} {path : Path} {machine : Machine}

theorem printAndExit_world (text : String) (free : world.room = none) :
    (printAndExit text : StateM World Nat) world = (0, world.shown text) := by
  have printed : (Host.print text : StateM World _) world =
      (.ok (), world.shown text) :=
    World.print_unbounded text free
  rw [printAndExit, World.bind_apply, printed]
  rfl

private theorem runToHalt_world {budget : Nat}
    (given : machine.config.stepBudget = budget)
    (free : world.room = none) :
    (runToHalt machine : StateM World Nat) world =
      match machine.run budget with
      | (.error error, _) =>
          (1, world.complain (Report.text error.message []))
      | (.ok summary, after) =>
          (0, (world.complain (budgetWarning budget summary.status)).shown
            (String.ofList after.display ++ "\n")) := by
  rw [runToHalt, given]
  rcases finished : machine.run budget with ⟨error | ⟨executed, status⟩, after⟩
  · rfl
  · cases status with
    | running =>
        have all := Machine.executed_of_running (congrArg Prod.fst finished)
        subst all
        dsimp only
        rw [World.bind_apply]
        have still : (world.complain (budgetWarning executed .running)).room = none :=
          free
        exact printAndExit_world _ still
    | halted =>
        dsimp only
        rw [budgetWarning_halted, World.complain_empty, printAndExit_world _ free]

theorem prepare_world (named : arguments.file = some path) :
    (prepare arguments config : StateM World _) world =
      match ((Machine.new config).loadFile path : StateM World _) world with
      | ((.error error, _), after) =>
          (.error 1, after.complain (Report.load path error))
      | ((.ok file, loaded), after) =>
          (.ok loaded, after.complain (saveWarning file)) := by
  rw [prepare, named]
  simp only
  rw [World.bind_apply]
  rcases ((Machine.new config).loadFile path : StateM World _) world with
    ⟨⟨error | file, loaded⟩, after⟩
  · rfl
  · simp only [saveWarning]
    cases file.unsaved with
    | none =>
        simp only
        rw [World.complain_empty]
        rfl
    | some fault => rfl

theorem start_world (accepted : reader given = .start arguments)
    (configured : arguments.configure (Config.defaults.override lookup) = config) :
    (start reader lookup given : StateM World Startup) world =
      match (prepare arguments config : StateM World _)
          (world.noted (warnings lookup)) with
      | (.error code, after) => (.exit code, after)
      | (.ok machine, after) =>
          if arguments.run then
            (.exit ((runToHalt machine : StateM World Nat) after).1,
              ((runToHalt machine : StateM World Nat) after).2)
          else (.console machine, after) := by
  rw [start, accepted]
  simp only [configured]
  rw [World.bind_apply, noteAll_world, World.bind_apply]
  rcases (prepare arguments config : StateM World _) (world.noted (warnings lookup)) with
    ⟨code | machine, after⟩
  · rfl
  · simp only
    cases arguments.run with
    | true => rfl
    | false => rfl

/-- A run loads its file and then reports how far the machine came. -/
theorem run_world (accepted : reader given = .start arguments)
    (runs : arguments.run = true) (named : arguments.file = some path)
    (configured : arguments.configure (Config.defaults.override lookup) = config)
    (free : world.room = none) :
    (run reader lookup given input : StateM World Nat) world =
      match ((Machine.new config).loadFile path : StateM World _)
          (world.noted (warnings lookup)) with
      | ((.error error, _), after) =>
          (1, after.complain (Report.load path error))
      | ((.ok file, loaded), after) =>
          match loaded.run config.stepBudget with
          | (.error error, _) =>
              (1, after.complain
                (saveWarning file ++ Report.text error.message []))
          | (.ok summary, final) =>
              (0, (after.complain (saveWarning file ++
                budgetWarning config.stepBudget summary.status)).shown
                  (String.ofList final.display ++ "\n")) := by
  have seen := (Machine.new config).seen_loadFile path (world.noted (warnings lookup))
  rw [run, World.bind_apply, start_world accepted configured, prepare_world named]
  rcases load : ((Machine.new config).loadFile path : StateM World _)
      (world.noted (warnings lookup)) with
    ⟨⟨error | file, loaded⟩, after⟩
  · rfl
  · rw [load] at seen
    have still : (after.complain (saveWarning file)).room = none :=
      (congrArg (·.2.1) seen).trans free
    have budget : loaded.config.stepBudget = config.stepBudget :=
      congrArg Config.stepBudget
        (Machine.config_of_loadFile (congrArg Prod.fst load))
    simp only [runs, if_true, runToHalt_world budget still]
    rcases loaded.run config.stepBudget with ⟨error | summary, final⟩
    · simp only [World.complain_complain]
      rfl
    · simp only [World.complain_complain]
      rfl

private theorem control_run {commands : Bytes} {line : Text} {budget : Nat}
    (alone : Session.inputLines commands = [line.encode])
    (read : Command.ofLine line = .run)
    (given : budget = machine.config.stepBudget) (free : world.room = none) :
    ((Session.control commands : Session (StateM World) Unit).on machine world).1 =
      (.ok (), (machine.run budget).2) := by
  have stays : ¬ Console.Quits line := by
    rw [← Console.ofLine_eq_quit_iff, read]
    simp
  have consults : Console.Consults (Session.inputLines commands) [line] .ended :=
    .ended alone (by simpa using stays)
  rw [consults.on_control free rfl, List.foldl_cons, List.foldl_nil]
  simp only [Console.respond, Session.execute, read]
  rw [Session.on_perform_run given rfl]
  rfl

/-- A run that exits with zero has shown a machine, and one that exits with one has
only complained. -/
theorem run_cases (accepted : reader given = .start arguments)
    (runs : arguments.run = true) (named : arguments.file = some path)
    (configured : arguments.configure (Config.defaults.override lookup) = config)
    (free : world.room = none) :
    let loading := ((Machine.new config).loadFile path : StateM World _)
      (world.noted (warnings lookup))
    let outcome := (run reader lookup given input : StateM World Nat) world
    (∃ file loaded summary after, loading.1 = (.ok file, loaded) ∧
      loaded.run config.stepBudget = (.ok summary, after) ∧
      outcome = (0, (loading.2.complain (saveWarning file ++
        budgetWarning config.stepBudget summary.status)).shown
          (String.ofList after.display ++ "\n"))) ∨
    (∀ file loaded, loading.1 = (.ok file, loaded) →
      ¬ loaded.Survives config.stepBudget) ∧
        ∃ report, outcome = (1, loading.2.complain report) := by
  dsimp only
  rw [run_world accepted runs named configured free]
  rcases ((Machine.new config).loadFile path : StateM World _)
      (world.noted (warnings lookup)) with
    ⟨⟨error | file, loaded⟩, after⟩
  · refine .inr ⟨?_, _, rfl⟩
    intro file loaded success
    cases success
  · simp only
    rcases finished : loaded.run config.stepBudget with ⟨error | summary, final⟩
    · refine .inr ⟨?_, _, rfl⟩
      intro file' loaded' success survives
      cases success
      obtain ⟨summary, survived⟩ := Machine.survives_iff.mp survives
      rw [finished] at survived
      cases survived
    · exact .inl ⟨file, loaded, summary, final, rfl, finished, rfl⟩

/-- Without the wish to run, a console opens on the machine that was loaded. -/
theorem start_onConsole
    (accepted : reader given = .start arguments.onConsole)
    (named : arguments.file = some path)
    (configured : arguments.configure (Config.defaults.override lookup) = config)
    {file : ProgramFile} {loaded : Machine}
    (load : (((Machine.new config).loadFile path : StateM World _)
      (world.noted (warnings lookup))).1 = (.ok file, loaded)) :
    (start reader lookup given : StateM World Startup) world =
      (.console loaded, (((Machine.new config).loadFile path : StateM World _)
        (world.noted (warnings lookup))).2.complain (saveWarning file)) := by
  have named' : arguments.onConsole.file = some path := named
  rw [start_world accepted configured, prepare_world named']
  rcases loading : ((Machine.new config).loadFile path : StateM World _)
      (world.noted (warnings lookup)) with ⟨outcome, after⟩
  rw [loading] at load
  cases load
  rfl

private theorem exists_console {asking : Given} (documented : reader.Documented asking)
    (accepted : reader given = .start arguments) (runs : arguments.run = true)
    (named : arguments.file = some path)
    (configured : arguments.configure (Config.defaults.override lookup) = config)
    (free : world.room = none) :
    ∃ front back, given = front ++ asking :: back ∧
      ∀ file loaded,
        (((Machine.new config).loadFile path : StateM World _) world).1 =
            (.ok file, loaded) →
          ∃ opened, (start reader lookup (front ++ back) : StateM World Startup) world =
              (.console loaded, opened) ∧
            ∀ commands line, Session.inputLines commands = [Text.encode line] →
              Command.ofLine line = .run →
              ((Session.control commands : Session (StateM World) Unit).on loaded
                opened).1 = (.ok (), (loaded.run config.stepBudget).2) := by
  obtain ⟨front, back, split, opens⟩ := documented.withoutRun accepted runs
  refine ⟨front, back, split, fun file loaded load => ?_⟩
  have budget : config.stepBudget = loaded.config.stepBudget :=
    (congrArg Config.stepBudget (Machine.config_of_loadFile load)).symm
  have seen := (Machine.new config).seen_loadFile path (world.noted (warnings lookup))
  have room : (((Machine.new config).loadFile path : StateM World _)
      (world.noted (warnings lookup))).2.room = none :=
    (congrArg (·.2.1) seen).trans free
  have files : (world.noted (warnings lookup)).files = world.files := rfl
  have load' : (((Machine.new config).loadFile path : StateM World _)
      (world.noted (warnings lookup))).1 = (.ok file, loaded) :=
    (Machine.fst_loadFile_of_files files).trans load
  refine ⟨_, start_onConsole opens named configured load', ?_⟩
  intro commands line alone read
  exact control_run alone read budget room

/-- A run exits with zero if its file loads and no step within the budget fails,
and with one if not. Then it prints nothing. If it exits with zero, it prints the
machine that the run leaves, and complains if the run did not come to its end. The
same arguments but for the wish to run open a console, where `run` leaves the same
machine. -/
theorem run_mode_reports_bounded_run {Given : Type} {reader : Reader Given}
    {asking : Given} (documented : reader.Documented asking)
    (lookup : String → Option Text) (given : List Given) (input : Bytes)
    (files : FileTree) {arguments : Arguments}
    (accepted : reader given = .start arguments) (runs : arguments.run = true) :
    ∃ path, arguments.file = some path ∧
      let config := arguments.configure (Config.defaults.override lookup)
      let world := World.new files none
      let loading := ((Machine.new config).loadFile path : StateM World _) world
      let outcome := (run reader lookup given input : StateM World Nat) world
      (outcome.1 = 0 ∨ outcome.1 = 1) ∧
      (outcome.1 = 0 ↔ ∃ file loaded, loading.1 = (.ok file, loaded) ∧
        loaded.Survives config.stepBudget) ∧
      (outcome.1 = 0 → ∃ file loaded summary after,
        loading.1 = (.ok file, loaded) ∧
        loaded.run config.stepBudget = (.ok summary, after) ∧
        outcome.2.output.toList = Text.encode (after.display ++ ['\n']) ∧
        outcome.2.complaints = saveWarning file ++
          budgetWarning config.stepBudget summary.status) ∧
      (outcome.1 = 1 → outcome.2.output = #[]) ∧
      ∃ front back, given = front ++ asking :: back ∧
        ∀ file loaded, loading.1 = (.ok file, loaded) →
          ∃ opened, (start reader lookup (front ++ back) : StateM World Startup) world =
              (.console loaded, opened) ∧
            ∀ commands line, Session.inputLines commands = [Text.encode line] →
              Command.ofLine line = .run →
              ((Session.control commands : Session (StateM World) Unit).on loaded
                opened).1 = (.ok (), (loaded.run config.stepBudget).2) := by
  obtain ⟨path, named⟩ := documented.file accepted runs
  refine ⟨path, named, ?_⟩
  intro config world loading outcome
  let warned := world.noted (warnings lookup)
  let loading' := ((Machine.new config).loadFile path : StateM World _) warned
  have loads : loading'.1 = loading.1 := Machine.fst_loadFile_of_files rfl
  have seen : loading'.2.seen = world.seen := (Machine.new config).seen_loadFile path warned
  have output : loading'.2.output = #[] := congrArg (·.1) seen
  have complaints : loading'.2.complaints = "" := congrArg (·.2.2) seen
  have console := @exists_console Given reader lookup given world arguments config path
    asking documented accepted runs named rfl rfl
  have ended := @run_cases Given reader lookup given input world arguments config path
    accepted runs named rfl rfl
  rcases ended with ⟨file, loaded, summary, after, load, finished, same⟩ |
    ⟨fails, report, same⟩
  · have zero : outcome.1 = 0 := congrArg Prod.fst same
    have survives : loaded.Survives config.stepBudget :=
      Machine.survives_iff.mpr ⟨summary, congrArg Prod.fst finished⟩
    have load' : loading.1 = (.ok file, loaded) := loads.symm.trans load
    have world' : outcome.2 = _ := congrArg Prod.snd same
    refine ⟨.inl zero, iff_of_true zero ⟨file, loaded, load', survives⟩, fun _ => ?_,
      fun one => absurd (zero.symm.trans one) (by decide), console⟩
    refine ⟨file, loaded, summary, after, load', finished, ?_, ?_⟩
    · have shown := World.toList_output_shown (String.ofList after.display ++ "\n") output
      rw [String.toList_append, String.toList_ofList] at shown
      rw [world']
      exact shown
    · rw [world']
      change loading'.2.complaints ++ _ = _
      rw [complaints, String.empty_append]
  · have one : outcome.1 = 1 := congrArg Prod.fst same
    have nonzero : outcome.1 ≠ 0 := by
      rw [one]
      decide
    refine ⟨.inr one, iff_of_false nonzero ?_, fun zero => absurd zero nonzero,
      fun _ => ?_, console⟩
    · rintro ⟨file, loaded, load, survives⟩
      exact fails file loaded (loads.trans load) survives
    · rw [show outcome = _ from same]
      exact output

/-- A program of two words, below the root, that halts on the last step of its
budget. -/
theorem run_mode_reports_bounded_run_of_last_step :
    let steps : Text := ['-', '-', 's', 't', 'e', 'p', 's', '=', '2']
    let texts := [steps, runFlag, ['/', 'p']]
    let path : Path := .ofText ['/', 'p']
    let image : Text := ['4', '0', '0', '\n', '0']
    let files := FileTree.empty.add [Text.encode ['p']] (.file image.encode)
    let outcome := (run Invocation.ofArguments (fun _ => none) texts [] :
      StateM World Nat) (World.new files none)
    Invocation.ofArguments texts = .start ⟨some path, none, some 2, false, true⟩ ∧
      outcome.1 = 0 ∧ outcome.2.complaints = "" := by
  intro steps texts path image files outcome
  have accepted : Invocation.ofArguments texts =
      .start ⟨some path, none, some 2, false, true⟩ := by decide
  obtain ⟨_, named, _, zero, shown, _⟩ :=
    run_mode_reports_bounded_run documented_ofArguments (fun _ => none) texts [] files
      accepted rfl
  cases named
  let config : Config := ⟨256, 2, false, ['a', 's', 'm']⟩
  let machine := Machine.new config
  let program := Program.ofWords [0x400, 0]
  have found : ProgramFile.find files config path = .ok program :=
    ProgramFile.find_eq_ok_iff.mpr ⟨image, rfl, by decide⟩
  have load : ((machine.loadFile path : StateM World _) (World.new files none)).1 =
      (.ok ⟨program, none⟩, machine.after [.load program]) := by
    rw [Machine.loadFile_of_ok found]
    rfl
  have halted : ((machine.after [.load program]).run 2).1 = .ok ⟨2, .halted⟩ := by
    decide
  have exits : outcome.1 = 0 :=
    zero.mpr ⟨_, _, load, Machine.survives_iff.mpr ⟨_, halted⟩⟩
  refine ⟨accepted, exits, ?_⟩
  obtain ⟨file, loaded, summary, after, load', finished, _, complaints⟩ := shown exits
  cases load.symm.trans load'
  cases halted.symm.trans (congrArg Prod.fst finished)
  exact complaints

end CommandLine

end WordMachine
