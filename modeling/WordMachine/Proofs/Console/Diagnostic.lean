import WordMachine.Proofs.Console.Attempt

namespace WordMachine

/-! What a line reports of the steps it takes, before any console: each diagnostic
is recorded and told once, in the order in which the steps raised them. -/

def warnings (events : List Event) : List Event :=
  events.filter fun event => event.level == .warn

theorem warnings_append (front back : List Event) :
    warnings (front ++ back) = warnings front ++ warnings back :=
  List.filter_append front back

namespace Machine

private theorem warnings_stepEvents (machine : Machine) :
    warnings machine.stepEvents = machine.faults.map Event.raised := by
  have lines : warnings ((machine.sourceLine machine.pc).toList.map Event.sourceLine) =
      [] := by
    cases machine.sourceLine machine.pc <;> rfl
  have instructions : warnings ((machine.processor.cpu.pending
      machine.memory).toList.map (Event.executing machine.pc)) = [] := by
    cases machine.processor.cpu.pending machine.memory <;> rfl
  rw [stepEvents, warnings_append, warnings_append, lines, instructions, faults]
  cases machine.step.2.diagnostic <;> rfl

theorem warnings_trail (machine : Machine) (count : Nat) :
    warnings ((machine.trail count).flatMap stepEvents) =
      ((machine.trail count).flatMap faults).map Event.raised := by
  rw [warnings, List.filter_flatMap, List.map_flatMap]
  apply List.flatMap_congr
  intro stepped _
  exact stepped.warnings_stepEvents

end Machine

namespace Console

open Session

variable {machine : Machine} {world : World}

/-- How a line that may take some steps ends before a console: with all its work
done, or at a step whose diagnostic the console has no room for. -/
private inductive Settles (machine : Machine) (world : World) (count : Nat)
    (work : Machine × World) : Machine → World → Prop
  | done {world' : World} (fits : Fits world.room (told (machine.raised count)))
      (journal : world'.journal = work.2.journal) :
      Settles machine world count work work.1 world'
  | broken {world' : World} {index : Nat} (taken : machine.Takes count index)
      (fits : Fits world.room (told (machine.raised index)))
      (short : ¬ Fits world.room (told (machine.raised (index + 1))))
      (journal : world'.journal =
        world.journal ++ Machine.runEvents (index + 1) machine) :
      Settles machine world count work (machine.afterSteps (index + 1)) world'

private theorem exists_play_of_fits {α : Type} {last : Outcome α} {prints : List Print}
    {room : Option Nat} (output : Array UInt8)
    (fits : Fits room (prints.flatMap Print.bytes)) :
    ∃ left, play last prints output room =
      (last.1, last.2.facing (output ++ prints.flatMap Print.bytes) left) := by
  cases room with
  | none => exact ⟨none, play_unbounded prints⟩
  | some limit => exact ⟨_, play_of_fits (fits_some_iff.mp fits)⟩

private theorem told_concat (diagnostics : List Diagnostic) (last : Diagnostic) :
    told (diagnostics ++ [last]) =
      told diagnostics ++ Text.encode (last.message ++ "\n").toList := by
  rw [told, List.map_append, lineBytes_append, told]
  simp [lineBytes]

/-- A line that the console breaks off has come to the point where it broke. -/
private theorem settles_at_point {line : Text} {work : Machine × World}
    {machine' : Machine}
    {world' : World} {text : String} {flow : Flow} {limit : Nat} {whole : Bytes}
    (point : LinePoint machine (world.facing world.output none) line machine' world'
      text)
    (executed : (execute line : Session (StateM World) Flow).on machine
      (world.facing world.output none) =
        ((.ok flow, work.1), work.2.facing (world.output ++ whole) none))
    (limited : world.room = some limit)
    (within : world'.output.size ≤ world.output.size + limit)
    (beyond : world.output.size + limit <
      world'.output.size + (Text.encode text.toList).length)
    (output : Array UInt8) (room : Option Nat) :
    Settles machine world ((Command.ofLine line).series machine) work machine'
      (world'.facing output room) := by
  have fits_iff (bytes : Bytes) : Fits world.room bytes ↔ bytes.length ≤ limit := by
    rw [limited]
    exact fits_some_iff
  cases point with
  | stepping point =>
      cases point with
      | @raised index diagnostic taken raised =>
          have size : (world.output ++ told (machine.raised index)).size = _ :=
            World.size_append world.output (told (machine.raised index))
          have within' := size.symm.trans_le within
          have beyond' := beyond.trans_eq (congrArg (· + _) size)
          refine .broken taken ((fits_iff _).mpr (by omega)) ?_ rfl
          rw [fits_iff, Machine.raised_succ_of_takes taken, raised,
            Option.toList_some, told_concat, List.length_append]
          omega
  | @finished _ _ _ bytes earlier _ _ executed' same parts =>
      cases executed'.symm.trans executed
      refine .done ((fits_iff _).mpr ?_) rfl
      have size : (world.output ++ (bytes ++ earlier)).size = _ :=
        World.size_append world.output (bytes ++ earlier)
      have within' := size.symm.trans_le within
      rw [List.length_append, same] at within'
      exact Nat.le_trans (Nat.le_add_right _ _) (Nat.le_of_add_le_add_left within')

private theorem settles_execute (line : Text) :
    let command := Command.ofLine line
    let outcome := (execute line : Session (StateM World) Flow).on machine world
    Settles machine world (command.series machine) (command.work machine world)
      outcome.1.2 outcome.2 ∧
    ∃ lines, outcome.2.output = world.output ++ cut world.room
        (told (machine.raised (command.series machine)) ++ lineBytes lines) ∧
      (command.Stepping → lines = command.closing machine) := by
  intro command outcome
  obtain ⟨prints, lines, plays, bytes, closing, along⟩ :=
    @plays_line machine world line
  have played : outcome = play _ prints world.output world.room :=
    plays world.output world.room
  have parts : prints.flatMap Print.bytes =
      told (machine.raised (command.series machine)) ++ lineBytes lines :=
    bytes.trans (lineBytes_append _ lines)
  by_cases fits : Fits world.room (prints.flatMap Print.bytes)
  · obtain ⟨left, whole⟩ := exists_play_of_fits world.output fits
    rw [played, whole]
    refine ⟨.done (fits.mono (parts ▸ List.prefix_append _ _)) rfl, lines, ?_,
      closing⟩
    rw [← parts, cut_of_fits fits]
    rfl
  · cases limited : world.room with
    | none => exact absurd (limited ▸ fits_none) fits
    | some limit =>
        rw [limited, fits_some_iff] at fits
        rw [limited] at played
        have short := Nat.lt_of_not_le fits
        obtain ⟨machine', world', text, later, point, _, within, beyond, stopped⟩ :=
          play_of_short short (along world.output)
        rw [played, stopped]
        refine ⟨?_, lines, by rw [← parts]; rfl, closing⟩
        exact settles_at_point point (plays.unbounded world.output) limited within
          beyond _ _

theorem Command.work_of_stepping {command : Command} (stepping : command.Stepping) :
    command.work machine world =
      ((machine.run (command.series machine)).2,
        world.noted (Machine.runEvents (command.series machine) machine)) := by
  cases stepping with
  | step => rfl
  | run => rfl

private theorem Settles.of_run {count : Nat} {machine' : Machine} {world' : World}
    (settles : Settles machine world count
      ((machine.run count).2, world.noted (Machine.runEvents count machine))
      machine' world') (more : Bytes) :
    let steps := machine.attempted world.room count
    machine' = machine.afterSteps steps ∧
      world'.journal =
        world.journal ++ (machine.trail steps).flatMap Machine.stepEvents ∧
      cut world.room (told (machine.raised count) ++ more) =
        cut world.room (told ((machine.trail steps).flatMap Machine.faults) ++ more) := by
  intro steps
  cases settles with
  | done fits journal =>
      have whole : steps = machine.attempted none count :=
        Machine.attempted_of_fits fits
      rw [whole, ← Machine.run_eq_afterSteps, ← Machine.runEvents_eq,
        ← Machine.raised_eq]
      exact ⟨rfl, journal, rfl⟩
  | @broken _ index taken fits short journal =>
      have last : steps = index + 1 := Machine.attempted_of_short taken fits short
      have events := machine.runEvents_eq (index + 1)
      have raised := machine.raised_eq (index + 1)
      rw [Machine.attempted_of_takes taken] at events raised
      rw [last, ← events, ← raised]
      refine ⟨rfl, journal, ?_⟩
      obtain ⟨others, whole⟩ :=
        told_isPrefix_told (machine.raised_isPrefix_raised taken.1)
      rw [← whole, List.append_assoc, cut_append short, cut_append short]

/-- A line that executes instructions takes as many steps as the console lets it,
records each, and tells what they raised before it tells anything else. -/
theorem on_stepping_line {line : Text} (stepping : (Command.ofLine line).Stepping) :
    let command := Command.ofLine line
    let steps := machine.attempted world.room (command.series machine)
    let outcome := (execute line : Session (StateM World) Flow).on machine world
    outcome.1.2 = machine.afterSteps steps ∧
      outcome.2.journal =
        world.journal ++ (machine.trail steps).flatMap Machine.stepEvents ∧
      outcome.2.output = world.output ++ cut world.room
        (told ((machine.trail steps).flatMap Machine.faults) ++
          lineBytes (command.closing machine)) := by
  intro command steps outcome
  obtain ⟨settles, lines, output, closing⟩ := @settles_execute machine world line
  rw [Command.work_of_stepping stepping] at settles
  obtain ⟨after, journal, same⟩ := settles.of_run (lineBytes lines)
  rw [same, closing stepping] at output
  exact ⟨after, journal, output⟩

theorem Command.series_of_not_stepping {command : Command} (machine : Machine)
    (idle : ¬ command.Stepping) : command.series machine = 0 := by
  cases command with
  | step count => exact absurd .step idle
  | run => exact absurd .run idle
  | _ => rfl

theorem on_idle_line {line : Text} (idle : ¬ (Command.ofLine line).Stepping) :
    let work := (Command.ofLine line).work machine world
    let outcome := (execute line : Session (StateM World) Flow).on machine world
    outcome.1.2 = work.1 ∧ outcome.2.journal = work.2.journal := by
  intro work outcome
  have settles := (@settles_execute machine world line).1
  rw [Command.series_of_not_stepping machine idle] at settles
  generalize outcome.1.2 = machine' at settles ⊢
  cases settles with
  | done fits journal => exact ⟨rfl, journal⟩
  | broken taken => exact absurd taken.1 (Nat.not_lt_zero _)

end Console

end WordMachine
