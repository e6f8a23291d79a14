import WordMachine.Proofs.Console.Script
import WordMachine.Proofs.Console.Stepping

namespace WordMachine.Console

/-! The scripts of console commands: how much of its work is done when a command
prints. -/

/-- The point of a series of steps where one tells what it raised. -/
inductive StepPoint (machine : Machine) (world : World) (count : Nat) :
    Machine → World → String → Prop
  | raised {index : Nat} {diagnostic : Diagnostic}
      (taken : machine.Takes count index)
      (raised : (machine.afterSteps (index + 1)).diagnostic = some diagnostic) :
      StepPoint machine world count (machine.afterSteps (index + 1))
        ((world.noted (Machine.runEvents (index + 1) machine)).printed
          ((machine.raised index).map Diagnostic.message))
        (diagnostic.message ++ "\n")

def tells (machine : Machine) (world : World) (lines : List String) :
    List Print :=
  lines.map fun line => ⟨machine, world, line ++ "\n"⟩

def lineBytes (lines : List String) : Bytes :=
  Text.encode (lines.flatMap fun line => line.toList ++ ['\n'])

theorem bytes_tells (machine : Machine) (world : World) (lines : List String) :
    (tells machine world lines).flatMap Print.bytes = lineBytes lines := by
  induction lines with
  | nil => rfl
  | cons line rest induction =>
      rw [lineBytes, tells, List.map_cons, List.flatMap_cons, List.flatMap_cons,
        Text.encode_append, ← lineBytes, ← induction]
      simp [Print.bytes, tells]

theorem tells_append (machine : Machine) (world : World)
    (front back : List String) :
    tells machine world (front ++ back) =
      tells machine world front ++ tells machine world back :=
  List.map_append

theorem lineBytes_append (front back : List String) :
    lineBytes (front ++ back) = lineBytes front ++ lineBytes back := by
  simp [lineBytes, Text.encode_append]

open Session

variable {machine : Machine} {world : World}

theorem plays_printLine (line : String) :
    Plays (printLine line) machine world (tells machine world [line])
      ((.ok (), machine), world) :=
  plays_print (line ++ "\n")

private theorem plays_printLines (lines : List String) :
    Plays (printLines lines) machine world (tells machine world lines)
      ((.ok (), machine), world) := by
  induction lines with
  | nil => exact plays_pure ()
  | cons line rest induction => exact (plays_printLine line).bind induction

private theorem plays_noteAll (events : List Event) :
    Plays (liftM (Host.noteAll events : StateM World Unit)) machine world []
      ((.ok (), machine), world.noted events) := by
  have plays := @plays_lift _ machine world _ (quiet_noteAll events)
  rwa [noteAll_world] at plays

private theorem plays_step :
    Plays step machine world
      (tells machine.step.2 (world.noted machine.stepEvents)
        (machine.step.2.diagnostic.toList.map Diagnostic.message))
      ((.ok machine.step.1, machine.step.2),
        world.noted machine.stepEvents) := by
  refine plays_get.bind ((plays_noteAll machine.stepEvents).bind ?_)
  rcases machine.step with ⟨result, after⟩
  refine (plays_set after).bind ?_
  cases after.diagnostic with
  | none => exact plays_pure result
  | some diagnostic =>
      exact (plays_printLine diagnostic.message).bind (plays_pure result)

private theorem along_step (count : Nat) (output : Array UInt8) :
    Along (StepPoint machine (world.facing output none) (count + 1))
      (tells machine.step.2 (world.noted machine.stepEvents)
        (machine.step.2.diagnostic.toList.map Diagnostic.message)) output := by
  cases raised : machine.step.2.diagnostic with
  | none => trivial
  | some diagnostic =>
      have point := @StepPoint.raised machine (world.facing output none)
        (count + 1) 0 diagnostic (machine.takes_zero count) raised
      rw [Machine.runEvents_one, show machine.raised 0 = [] from rfl, List.map_nil,
        World.printed_nil] at point
      exact ⟨point, trivial⟩

theorem StepPoint.later {after machine' : Machine} {world' : World} {count : Nat}
    {text : String}
    (point : StepPoint after ((world.noted machine.stepEvents).printed
      (after.diagnostic.toList.map Diagnostic.message)) count
        machine' world' text)
    (stepped : machine.step = (.ok .running, after)) :
    StepPoint machine world (count + 1) machine' world' text := by
  cases point with
  | @raised index diagnostic taken raised =>
      have next : machine.step.2 = after := congrArg Prod.snd stepped
      have moved : machine.afterSteps (index + 1 + 1) =
          after.afterSteps (index + 1) := by
        rw [← next]
        rfl
      have taken' : machine.Takes (count + 1) (index + 1) :=
        Machine.takes_succ_iff.mpr
          ⟨congrArg Prod.fst stepped, next ▸ taken⟩
      have told := machine.raised_succ index
      rw [stepped, if_pos rfl] at told
      have point := @StepPoint.raised machine world (count + 1) (index + 1)
        diagnostic taken' (by rw [moved]; exact raised)
      rw [moved, Machine.runEvents_of_running stepped, told, List.map_append] at point
      rw [World.noted_printed, World.noted_noted, World.printed_printed]
      exact point

/-- The prints of a series of steps before it ends: each diagnostic right after
the step that raised it. -/
structure Leads (machine : Machine) (world : World) (count : Nat)
    (prints : List Print) : Prop where
  bytes : prints.flatMap Print.bytes =
    lineBytes ((machine.raised count).map Diagnostic.message)
  along : ∀ output,
    Along (StepPoint machine (world.facing output none) count) prints output

theorem leads_nil : Leads machine world 0 [] :=
  ⟨rfl, fun _ => trivial⟩

private theorem leads_of_ne_running {count : Nat}
    (ended : machine.step.1 ≠ .ok .running) :
    Leads machine world (count + 1)
      (tells machine.step.2 (world.noted machine.stepEvents)
        (machine.step.2.diagnostic.toList.map Diagnostic.message)) := by
  refine ⟨?_, along_step count⟩
  rw [bytes_tells, machine.raised_succ, if_neg ended, List.append_nil]

theorem Leads.of_running {after : Machine} {count : Nat} {prints : List Print}
    (leads : Leads after (world.noted machine.stepEvents) count prints)
    (stepped : machine.step = (.ok .running, after)) :
    Leads machine world (count + 1)
      (tells after (world.noted machine.stepEvents)
        (after.diagnostic.toList.map Diagnostic.message) ++ prints) := by
  constructor
  · have told := machine.raised_succ count
    rw [stepped, if_pos rfl] at told
    rw [told, List.map_append, lineBytes_append, List.flatMap_append,
      bytes_tells, leads.bytes]
  · intro output
    have first := @along_step machine world count output
    rw [stepped] at first
    refine first.append ?_
    refine (leads.along _).imp fun machine' world' text point => ?_
    rw [bytes_tells] at point
    exact point.later stepped

private theorem plays_steps (count : Nat) :
    ∃ front, Plays (steps count) machine world
      (front ++ tells (machine.run count).2
        (world.noted (Machine.runEvents count machine))
        (endLines (machine.run count).1))
      ((.ok (.ofRun (machine.run count).1), (machine.run count).2),
        world.noted (Machine.runEvents count machine)) ∧
      Leads machine world count front := by
  -- As in a run of the session, machine and world move on with the first step.
  induction count generalizing machine world with
  | zero =>
      refine ⟨[], ?_, leads_nil⟩
      rw [show Machine.runEvents 0 machine = [] from rfl, World.noted_nil]
      exact plays_pure _
  | succ count induction =>
      have first := @plays_step machine world
      by_cases running : machine.step.1 = .ok .running
      · have stepped : machine.step = (.ok .running, machine.step.2) :=
          Prod.ext running rfl
        rw [running] at first
        obtain ⟨front, plays, leads⟩ :=
          @induction machine.step.2 (world.noted machine.stepEvents)
        rw [Machine.run_of_running stepped, Machine.runEvents_of_running stepped,
          ← World.noted_noted, Prod.map, Ending.ofRun_delayed, endLines_delayed]
        have whole : Plays (steps (count + 1)) machine world _ _ :=
          first.bind plays
        rw [← List.append_assoc] at whole
        exact ⟨_, whole, leads.of_running stepped⟩
      · refine ⟨_, ?_, leads_of_ne_running running⟩
        rw [Machine.runEvents_of_ne_running running]
        rcases stepped : machine.step with ⟨_ | ⟨_ | _⟩, after⟩
        · rw [stepped] at first
          rw [Machine.run_of_error stepped]
          exact first.bind ((plays_printLine _).bind (plays_pure _))
        · exact absurd (congrArg Prod.fst stepped) running
        · rw [stepped] at first
          rw [Machine.run_of_halted stepped]
          exact first.bind ((plays_printLine _).bind (plays_pure _))

namespace Command

def flow : Command → Flow
  | .quit => .quit
  | _ => .proceed

/-- The number of steps that a command may take. -/
def series (machine : Machine) : Command → Nat
  | .step count => count
  | .run => machine.config.stepBudget
  | _ => 0

inductive Stepping : Command → Prop
  | step {count : Nat} : Stepping (.step count)
  | run : Stepping .run

def closing (machine : Machine) : Command → List String
  | .step count => endLines (machine.run count).1 ++ ["done"]
  | .run =>
      let budget := machine.config.stepBudget
      endLines (machine.run budget).1 ++
        (budgetLines budget (machine.run budget).1 ++ ["done"])
  | _ => []

/-- The machine and the world after a command, but for the console. -/
def work (machine : Machine) (world : World) : Command → Machine × World
  | .load path =>
      let loaded := (machine.loadFile path : StateM World _) world
      (loaded.1.2, loaded.2)
  | .step count =>
      ((machine.run count).2, world.noted (Machine.runEvents count machine))
  | .run =>
      let budget := machine.config.stepBudget
      ((machine.run budget).2, world.noted (Machine.runEvents budget machine))
  | .reset => (machine.reset, world)
  | _ => (machine, world)

end Command

private theorem plays_load (path : Path) :
    ∃ lines, Plays (load path) machine world
      (tells ((Command.load path).work machine world).1
        ((Command.load path).work machine world).2 lines)
      ((.ok (), ((Command.load path).work machine world).1),
        ((Command.load path).work machine world).2) := by
  have loads := @plays_lift _ machine world _ (quiet_loadFile path machine)
  simp only [Command.work]
  rcases loaded : (machine.loadFile path : StateM World _) world with
    ⟨⟨result, after⟩, world'⟩
  rw [loaded] at loads
  cases result with
  | error error =>
      exact ⟨[error.message], plays_get.bind (loads.bind
        ((plays_set after).bind (plays_printLine error.message)))⟩
  | ok file =>
      cases unsaved : file.unsaved with
      | none =>
          refine ⟨["done"], plays_get.bind (loads.bind
            ((plays_set after).bind ?_))⟩
          simp only [unsaved]
          exact plays_printLine "done"
      | some fault =>
          refine ⟨[s!"warning: assembled words were not saved: {fault.message}",
            "done"], plays_get.bind (loads.bind
            ((plays_set after).bind ?_))⟩
          simp only [unsaved]
          exact (plays_printLine _).bind (plays_printLine "done")

theorem plays_answer (line : String) :
    Plays (do printLine line; pure Flow.proceed) machine world
      (tells machine world [line]) ((.ok .proceed, machine), world) :=
  (plays_printLine line).bind_pure Flow.proceed

private theorem plays_runToBudget :
    ∃ front, Plays runToBudget machine world
      (front ++ tells (Command.run.work machine world).1
        (Command.run.work machine world).2 (Command.run.closing machine))
      ((.ok (), (Command.run.work machine world).1),
        (Command.run.work machine world).2) ∧
      Leads machine world machine.config.stepBudget front := by
  obtain ⟨front, series, leads⟩ :=
    @plays_steps machine world machine.config.stepBudget
  refine ⟨front, ?_, leads⟩
  rw [Command.closing, tells_append, ← List.append_assoc]
  refine plays_get.bind (series.bind ?_)
  clear series
  simp only [Command.work]
  rcases (machine.run machine.config.stepBudget).1 with error | ⟨executed, _ | _⟩
  · exact plays_printLine "done"
  · exact (plays_printLine _).bind (plays_printLine "done")
  · exact plays_printLine "done"

/-- A command prints while it steps, and when all of its work is done. -/
theorem plays_perform (command : Command) :
    ∃ front lines, Plays (perform command) machine world
      (front ++ tells (command.work machine world).1
        (command.work machine world).2 lines)
      ((.ok command.flow, (command.work machine world).1),
        (command.work machine world).2) ∧
      Leads machine world (command.series machine) front ∧
      (command.Stepping → lines = command.closing machine) := by
  cases command with
  | blank => exact ⟨[], [], plays_pure _, leads_nil, nofun⟩
  | load path =>
      obtain ⟨lines, plays⟩ := @plays_load machine world path
      exact ⟨[], lines, plays.bind_pure _, leads_nil, nofun⟩
  | loadNothing => exact ⟨[], [_], plays_answer _, leads_nil, nofun⟩
  | memory =>
      exact ⟨[], _, plays_get.bind ((plays_printLine _).bind_pure _), leads_nil,
        nofun⟩
  | registers =>
      exact ⟨[], _, plays_get.bind ((plays_printLine _).bind_pure _), leads_nil,
        nofun⟩
  | step count =>
      obtain ⟨front, series, leads⟩ := @plays_steps machine world count
      have whole : Plays (perform (.step count)) machine world _ _ :=
        series.bind ((plays_printLine "done").bind_pure Flow.proceed)
      rw [List.append_assoc, ← tells_append] at whole
      exact ⟨front, _, whole, leads, fun _ => rfl⟩
  | stepUnclear => exact ⟨[], [_], plays_answer _, leads_nil, nofun⟩
  | run =>
      obtain ⟨front, plays, leads⟩ := @plays_runToBudget machine world
      exact ⟨front, _, plays.bind_pure _, leads, fun _ => rfl⟩
  | reset =>
      exact ⟨[], _, (plays_modify _).bind ((plays_printLine _).bind_pure _),
        leads_nil, nofun⟩
  | help =>
      exact ⟨[], helpLines, (plays_printLines helpLines).bind_pure _, leads_nil,
        nofun⟩
  | quit => exact ⟨[], [], plays_pure _, leads_nil, nofun⟩
  | unknown name => exact ⟨[], [_], plays_answer _, leads_nil, nofun⟩

/-- The points of a line where it prints: while it steps, and when it has done
all it does and told what its steps raised, but has more to tell. -/
inductive LinePoint (machine : Machine) (world : World) (line : Text) :
    Machine → World → String → Prop
  | stepping {machine' : Machine} {world' : World} {text : String}
      (point : StepPoint machine world ((Command.ofLine line).series machine)
        machine' world' text) :
      LinePoint machine world line machine' world' text
  | finished {flow : Flow} {after : Machine} {world' : World}
      {told earlier later : Bytes} {text : String}
      (executed : (execute line : Session (StateM World) Flow).on machine
        world = ((.ok flow, after), world'))
      (raised : told = lineBytes ((machine.raised
        ((Command.ofLine line).series machine)).map Diagnostic.message))
      (parts : world'.output = world.output ++
        (told ++ earlier ++ (Text.encode text.toList ++ later))) :
      LinePoint machine world line after
        (world'.facing (world.output ++ (told ++ earlier)) none) text

private theorem along_tells {holds : Machine → World → String → Prop}
    {lines : List String} {output : Array UInt8}
    (points : ∀ earlier line later, lines = earlier ++ line :: later →
      holds machine (world.facing
        (output ++ (tells machine world earlier).flatMap Print.bytes) none)
        (line ++ "\n")) :
    Along holds (tells machine world lines) output := by
  induction lines generalizing output with
  | nil => trivial
  | cons line rest induction =>
      refine ⟨?_, induction ?_⟩
      · have point := points [] line rest rfl
        rwa [tells, List.map_nil, List.flatMap_nil, Array.appendList_nil] at point
      · rintro earlier next later rfl
        have point := points (line :: earlier) next later rfl
        rwa [tells, List.map_cons, List.flatMap_cons, ← World.append_append]
          at point

theorem executeBytes_of_read {line : Bytes} {text : Text}
    (read : Bytes.decode? line = some text) :
    (executeBytes line : Session (StateM World) Flow) = execute text := by
  rw [executeBytes, read]

/-- The script of a line, with the point of the line at each of its texts. -/
theorem plays_line (line : Text) :
    ∃ prints lines, Plays (execute line) machine world prints
      ((.ok (Command.ofLine line).flow, ((Command.ofLine line).work machine world).1),
        ((Command.ofLine line).work machine world).2) ∧
      prints.flatMap Print.bytes = lineBytes ((machine.raised
        ((Command.ofLine line).series machine)).map Diagnostic.message ++ lines) ∧
      ((Command.ofLine line).Stepping →
        lines = (Command.ofLine line).closing machine) ∧
      ∀ output, Along (LinePoint machine (world.facing output none) line) prints
        output := by
  obtain ⟨front, lines, plays, leads, closing⟩ :=
    @plays_perform machine world (Command.ofLine line)
  generalize (Command.ofLine line).work machine world = worked at plays ⊢
  obtain ⟨after, world'⟩ := worked
  refine ⟨_, lines, plays, ?_, closing, fun output => Along.append ?_ ?_⟩
  · rw [List.flatMap_append, leads.bytes, bytes_tells, ← lineBytes_append]
  · exact (leads.along output).imp fun _ _ _ point => .stepping point
  · refine along_tells fun earlier next later split => ?_
    have executed := plays.unbounded output
    have parts : (world'.facing (output ++
        (front ++ tells after world' lines).flatMap Print.bytes) none).output =
        output ++ (front.flatMap Print.bytes ++
          (tells after world' earlier).flatMap Print.bytes ++
            (Text.encode (next ++ "\n").toList ++
              (tells after world' later).flatMap Print.bytes)) := by
      rw [split, tells_append]
      simp [tells, Print.bytes, World.facing]
    have point : LinePoint machine (world.facing output none) line _ _ _ :=
      .finished executed leads.bytes parts
    rwa [← World.append_append] at point

theorem plays_execute (line : Text) :
    ∃ prints after world', Plays (execute line) machine world prints
      ((.ok (Command.ofLine line).flow, after), world') ∧
      ∀ output, Along (LinePoint machine (world.facing output none) line) prints
        output := by
  obtain ⟨prints, _, plays, _, _, along⟩ := @plays_line machine world line
  exact ⟨prints, _, _, plays, along⟩

end WordMachine.Console
