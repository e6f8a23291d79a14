import WordMachine.Proofs.Console.Effect
import WordMachine.Proofs.Machine.Load

namespace WordMachine

/-! A machine in its world serves requests: programs to load, operations, and lines
from a console. Each request puts a program in place, or resets the machine, or
leaves its configuration, its size and its source lines alone. -/

namespace Program

inductive Source where
  | assembly (text : Text)
  | image (text : Text)
  | words (listed : List Word)

def Source.program : Source → Except SourceError Program
  | .assembly text => assemble text
  | .image text => ofHexImage text
  | .words listed => .ok (ofWords listed)

end Program

open Console

/-- Programs reach the machine by their sources, so no operation is a load. What
surrounds the machine may change at any time. -/
inductive Request where
  | load (source : Program.Source)
  | file (path : Path)
  | operate (operation : Machine.Operation)
      (other : ∀ program, operation ≠ .load program)
  | line (text : Text)
  | surround (world : World)

inductive Reply where
  | done
  | refused (error : SourceError)
  | loaded (result : Except MemoryError Unit)
  | read (result : Except LoadError ProgramFile)
  | answer (answer : Machine.Answer)
  | flow (result : Except Fault Flow)

inductive Request.Resets : Request → Prop
  | operate {other : ∀ program, Machine.Operation.reset ≠ .load program} :
      Resets (.operate .reset other)
  | line {text : Text} (command : Command.ofLine text = .reset) :
      Resets (.line text)

structure Hosted where
  machine : Machine
  world : World

namespace Hosted

variable {state : Hosted}

def act {α : Type} (state : Hosted) (reply : α → Reply)
    (work : StateM World (α × Machine)) : Reply × Hosted :=
  let ((result, machine), world) := work state.world
  (reply result, ⟨machine, world⟩)

def serve (state : Hosted) : Request → Reply × Hosted
  | .load source =>
      match source.program with
      | .ok program => state.act .loaded (state.machine.install program)
      | .error error => (.refused error, state)
  | .file path => state.act .read (state.machine.loadFile path)
  | .operate operation _ => state.act .answer do
      Host.noteAll (state.machine.events operation)
      pure (state.machine.perform operation)
  | .line text => state.act .flow ((Session.execute text).on state.machine)
  | .surround world => (.done, { state with world := world })

/-- The replies to requests, each with the state after it. -/
def transcript (state : Hosted) : List Request → List (Reply × Hosted)
  | [] => []
  | request :: rest =>
      state.serve request :: (state.serve request).2.transcript rest

def after (state : Hosted) (history : List Request) : Hosted :=
  history.foldl (fun state request => (state.serve request).2) state

theorem after_concat (state : Hosted) (history : List Request)
    (request : Request) :
    state.after (history ++ [request]) =
      ((state.after history).serve request).2 := by
  rw [after, List.foldl_append]
  rfl

inductive Installs (state : Hosted) : Request → Program → Prop
  | load {source : Program.Source} {program : Program} {loaded : Machine}
      (made : source.program = .ok program)
      (load : state.machine.load program = .ok loaded) :
      Installs state (.load source) program
  | file {path : Path} {file : ProgramFile} {loaded : Machine} {world : World}
      (load : (state.machine.loadFile path : StateM World _) state.world =
        ((.ok file, loaded), world)) :
      Installs state (.file path) file.program
  | line {text : Text} {path : Path} {program : Program}
      (command : Command.ofLine text = .load path)
      (installs : Installs state (.file path) program) :
      Installs state (.line text) program

theorem machine_load (source : Program.Source) :
    (state.serve (.load source)).2.machine =
      match source.program with
      | .ok program =>
          ((state.machine.install program : StateM World _) state.world).1.2
      | .error _ => state.machine := by
  rw [serve]
  cases source.program with
  | error error => rfl
  | ok program => rfl

theorem machine_file (path : Path) :
    (state.serve (.file path)).2.machine =
      ((state.machine.loadFile path : StateM World _) state.world).1.2 := rfl

private theorem machine_operate (operation : Machine.Operation)
    (other : ∀ program, operation ≠ .load program) :
    (state.serve (.operate operation other)).2.machine =
      (state.machine.perform operation).2 := rfl

theorem machine_line (text : Text) :
    (state.serve (.line text)).2.machine =
      ((Session.perform (Command.ofLine text) : Session (StateM World) _).on
        state.machine state.world).1.2 := rfl

theorem machine_of_installs {request : Request} {program : Program}
    (installs : Installs state request program) :
    state.machine.load program = .ok (state.serve request).2.machine := by
  induction installs with
  | load made load =>
      rw [machine_load, made]
      dsimp only
      rw [Machine.install_world, load]
  | file load =>
      rw [machine_file, load]
      exact (Machine.loadFile_eq_ok load).2
  | line command installs induction =>
      rw [induction, machine_line, command, Session.machine_perform_load,
        machine_file]

theorem machine_of_resets {request : Request} (resets : request.Resets) :
    (state.serve request).2.machine = state.machine.reset := by
  cases resets with
  | operate => rfl
  | line command =>
      rw [machine_line, command, Session.machine_perform_reset]

theorem machine_of_unloaded {path : Path}
    (noLoad : ∀ program, ¬ Installs state (.file path) program) :
    ((state.machine.loadFile path : StateM World _) state.world).1.2 =
      state.machine := by
  rcases load : (state.machine.loadFile path : StateM World _) state.world with
    ⟨⟨error | file, after⟩, world⟩
  · exact Machine.eq_of_loadFile_eq_error load
  · exact absurd (.file load) (noLoad file.program)

theorem frame_serve {request : Request}
    (noLoad : ∀ program, ¬ Installs state request program)
    (noReset : ¬ request.Resets) :
    (state.serve request).2.machine.frame = state.machine.frame := by
  cases request with
  | load source =>
      rw [machine_load]
      cases made : source.program with
      | error error => rfl
      | ok program =>
          dsimp only
          rw [Machine.install_world]
          cases load : state.machine.load program with
          | error error => rfl
          | ok loaded => exact absurd (.load made load) (noLoad program)
  | file path => rw [machine_file, machine_of_unloaded noLoad]
  | operate operation other =>
      rw [machine_operate]
      refine Machine.frame_perform ?_ ?_
      · intro replaced
        obtain ⟨program, _, same, _⟩ := replaced
        exact other program same
      · intro resets
        subst resets
        exact noReset .operate
  | line text =>
      rw [machine_line]
      by_cases loads : ∃ path, Command.ofLine text = .load path
      · obtain ⟨path, command⟩ := loads
        have unloaded (program : Program) : ¬ Installs state (.file path) program :=
          fun installs => noLoad program (.line command installs)
        rw [command, Session.machine_perform_load, machine_of_unloaded unloaded]
      · refine Session.keeps_perform ?_ ?_ state.machine state.world
        · exact fun path command => loads ⟨path, command⟩
        · exact fun command => noReset (.line command)
  | surround world => rfl

inductive Serves (state : Hosted) (request : Request) (after : Machine) : Prop
  | installed {program : Program} (installs : Installs state request program)
      (load : state.machine.load program = .ok after)
  | reset (resets : request.Resets) (same : after = state.machine.reset)
  | kept (noLoad : ∀ program, ¬ Installs state request program)
      (noReset : ¬ request.Resets) (frame : after.frame = state.machine.frame)

theorem serves (state : Hosted) (request : Request) :
    Serves state request (state.serve request).2.machine := by
  by_cases loads : ∃ program, Installs state request program
  · obtain ⟨program, installs⟩ := loads
    exact .installed installs (machine_of_installs installs)
  · have noLoad := not_exists.mp loads
    by_cases resets : request.Resets
    · exact .reset resets (machine_of_resets resets)
    · exact .kept noLoad resets (frame_serve noLoad resets)

section Serves

variable {request : Request} {after : Machine}

theorem Serves.config (serves : Serves state request after) :
    after.config = state.machine.config := by
  cases serves with
  | installed installs load => exact Machine.config_of_load load
  | reset resets same => rw [same, Machine.reset]
  | kept noLoad noReset frame => exact congrArg Machine.Frame.config frame

theorem Serves.capacity (serves : Serves state request after) :
    after.memory.capacity = state.machine.memory.capacity := by
  cases serves with
  | installed installs load => exact Machine.capacity_of_load load
  | reset resets same => rw [same, Machine.reset, Memory.capacity_clear]
  | kept noLoad noReset frame => exact congrArg Machine.Frame.capacity frame

end Serves

theorem config_after (state : Hosted) (history : List Request) :
    (state.after history).machine.config = state.machine.config := by
  induction history using List.reverseRecOn with
  | nil => rfl
  | append_singleton history request induction =>
      rw [after_concat, (serves _ request).config, induction]

theorem capacity_after (state : Hosted) (history : List Request) :
    (state.after history).machine.memory.capacity =
      state.machine.memory.capacity := by
  induction history using List.reverseRecOn with
  | nil => rfl
  | append_singleton history request induction =>
      rw [after_concat, (serves _ request).capacity, induction]

private theorem reset_after (config : Config) (world : World) (history : List Request) :
    (after ⟨.new config, world⟩ history).machine.reset = .new config := by
  have same := config_after ⟨.new config, world⟩ history
  have size := capacity_after ⟨.new config, world⟩ history
  rw [Machine.reset, Memory.clear, same, size]
  rfl

/-- Whatever a machine has been through, a reset makes a new machine of it. So
everything that is asked of it after that has the answers of a new machine. -/
theorem reset_machine_is_new (config : Config) (world : World)
    (history : List Request) :
    let state := Hosted.after ⟨.new config, world⟩ history
    state.machine.reset = .new config ∧
      ∀ request, request.Resets →
        let served := (state.serve request).2
        served.machine = .new config ∧
          ∀ later, served.transcript later =
            Hosted.transcript ⟨.new config, served.world⟩ later := by
  intro state
  have new : state.machine.reset = .new config := reset_after config world history
  refine ⟨new, ?_⟩
  intro request resets served
  have same : served.machine = .new config :=
    (machine_of_resets resets).trans new
  refine ⟨same, ?_⟩
  intro later
  rw [← same]

/-- A console without room for its answer resets the machine all the same. -/
theorem reset_machine_is_new_of_full_console :
    let source : Text := ['d', 'i', 'v', ' ', '0', ' ', '1']
    let start : Hosted :=
      ⟨.new Config.defaults, .new FileTree.empty (some 0)⟩
    let history : List Request :=
      [.load (.assembly source), .operate .step nofun,
        .operate (.set 3 9) nofun, .operate (.memory (.write 2 1)) nofun]
    let state := start.after history
    let line : Request := .line ['r', 'e', 's', 'e', 't']
    state.machine.diagnostic = some (.divideByZero 0) ∧
      state.machine.sourceLine 0 = some 1 ∧ state.machine.get 3 = 9 ∧
      state.machine.memory.cell 2 = 1 ∧
      (state.serve line).1 = .flow (.error .outputLimit) ∧
      (state.serve line).2.machine = .new Config.defaults :=
  ⟨rfl, rfl, rfl, rfl, rfl,
    ((reset_machine_is_new Config.defaults _ _).2 _ (.line rfl)).1⟩

end Hosted

end WordMachine
