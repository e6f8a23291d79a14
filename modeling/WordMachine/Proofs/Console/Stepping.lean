import WordMachine.Proofs.Console.Output
import WordMachine.Proofs.Machine.Steps
import WordMachine.Proofs.Text.Lines
import WordMachine.Proofs.Word.Digits

namespace WordMachine.Console

/-! Stepping on the console does what a bounded run does, and tells what it
raised and how it ended. -/

namespace Ending

def ofRun : Except MemoryError RunSummary → Ending
  | .ok ⟨_, .halted⟩ => .halted
  | .ok ⟨_, .running⟩ => .exhausted
  | .error _ => .failed

end Ending

def endLines : Except MemoryError RunSummary → List String
  | .ok ⟨_, .halted⟩ => ["program terminated"]
  | .ok ⟨_, .running⟩ => []
  | .error error => [s!"error: {error.message}"]

def budgetLines (budget : Nat) : Except MemoryError RunSummary → List String
  | .ok ⟨_, .running⟩ => [s!"warning: step budget of {budget} exhausted"]
  | _ => []

def runLines (machine : Machine) (budget : Nat) : List String :=
  (machine.raised budget).map Diagnostic.message ++
    endLines (machine.run budget).1

theorem Ending.ofRun_delayed (result : Except MemoryError RunSummary) :
    ofRun (result.map .delayed) = ofRun result := by
  cases result with
  | error error => rfl
  | ok summary => rcases summary with ⟨_, _ | _⟩ <;> rfl

theorem endLines_delayed (result : Except MemoryError RunSummary) :
    endLines (result.map .delayed) = endLines result := by
  cases result with
  | error error => rfl
  | ok summary => rcases summary with ⟨_, _ | _⟩ <;> rfl

private theorem runLines_of_running {machine after : Machine}
    (step : machine.step = (.ok .running, after)) (budget : Nat) :
    runLines machine (budget + 1) =
      after.diagnostic.toList.map Diagnostic.message ++ runLines after budget := by
  have raised := machine.raised_succ budget
  rw [step, if_pos rfl] at raised
  rw [runLines, raised, Machine.run_of_running step, List.map_append,
    List.append_assoc]
  exact congrArg _ (congrArg _ (endLines_delayed _))

private theorem runLines_of_ne_running {machine : Machine}
    (ended : machine.step.1 ≠ .ok .running) (budget : Nat) :
    runLines machine (budget + 1) =
      machine.step.2.diagnostic.toList.map Diagnostic.message ++
        endLines (machine.run (budget + 1)).1 := by
  rw [runLines, machine.raised_succ, if_neg ended, List.append_nil]

namespace Session

variable {machine : Machine} {world : World}

private theorem on_steps (count : Nat) (free : world.room = none) :
    (steps count : Session (StateM World) Ending).on machine world =
      ((.ok (.ofRun (machine.run count).1), (machine.run count).2),
        (world.noted (Machine.runEvents count machine)).printed
          (runLines machine count)) := by
  induction count generalizing machine world with
  | zero =>
      rw [show runLines machine 0 = [] from rfl,
        show Machine.runEvents 0 machine = [] from rfl, World.noted_nil,
        World.printed_nil]
      rfl
  | succ count induction =>
      rcases step : machine.step with ⟨result, after⟩
      have first := @on_step machine world free
      rw [step] at first
      have still : ((world.noted machine.stepEvents).printed
          (after.diagnostic.toList.map Diagnostic.message)).room = none := free
      simp only [steps, on_bind, first, Machine.runEvents, step]
      cases result with
      | error error =>
          have ended : machine.step.1 ≠ .ok .running := by simp [step]
          simp only [on_bind, on_printLine _ still]
          rw [runLines_of_ne_running ended, Machine.run_of_error step,
            List.append_nil, World.printed_printed, step]
          rfl
      | ok status =>
          cases status with
          | halted =>
              have ended : machine.step.1 ≠ .ok .running := by simp [step]
              simp only [on_bind, on_printLine _ still]
              rw [runLines_of_ne_running ended, Machine.run_of_halted step,
                List.append_nil, World.printed_printed, step]
              rfl
          | running =>
              simp only
              rw [induction still, Machine.run_of_running step,
                runLines_of_running step, World.noted_printed,
                World.noted_noted, World.printed_printed, Prod.map,
                Ending.ofRun_delayed]
              rfl

private theorem on_perform_step (count : Nat) (free : world.room = none) :
    (perform (.step count) : Session (StateM World) Flow).on machine world =
      ((.ok .proceed, (machine.run count).2),
        (world.noted (Machine.runEvents count machine)).printed
          (runLines machine count ++ ["done"])) := by
  have still : ((world.noted (Machine.runEvents count machine)).printed
      (runLines machine count)).room = none := free
  simp only [perform, on_bind, on_steps count free, on_printLine _ still,
    World.printed_printed]
  rfl

theorem on_perform_run {budget : Nat} (given : budget = machine.config.stepBudget)
    (free : world.room = none) :
    (perform .run : Session (StateM World) Flow).on machine world =
      ((.ok .proceed, (machine.run budget).2),
        (world.noted (Machine.runEvents budget machine)).printed
          (runLines machine budget ++ budgetLines budget (machine.run budget).1 ++
            ["done"])) := by
  have still : ∀ lines, ((world.noted (Machine.runEvents budget machine)).printed
      lines).room = none := fun _ => free
  simp only [perform, runToBudget, on_bind, on_get, on_steps _ free, ← given]
  rcases (machine.run budget).1 with error | ⟨executed, _ | _⟩
  · simp only [Ending.ofRun, budgetLines, on_pure, on_printLine _ (still _),
      World.printed_printed, List.append_nil]
  · simp only [Ending.ofRun, budgetLines, on_bind, on_pure,
      on_printLine _ (still _), World.printed_printed]
  · simp only [Ending.ofRun, budgetLines, on_pure, on_printLine _ (still _),
      World.printed_printed, List.append_nil]

end Session

private theorem ofLine_step {count : Nat} (small : count < 2 ^ 64) :
    Command.ofLine (['s', 't', 'e', 'p'] ++ ' ' :: Nat.toDigits 10 count) =
      .step count := by
  have denotes := Numeral.denotes_toDigits count
  have size : Numeral.size? (Nat.toDigits 10 count) = some count := by
    rw [Numeral.size?, Numeral.unsigned?_of_denotes denotes,
      Option.filter_some]
    exact if_pos (decide_eq_true small)
  have digits : Text.words isBlank (Nat.toDigits 10 count) =
      [Nat.toDigits 10 count] :=
    Text.words_of_forall_not denotes.ne_nil fun c member =>
      Numeral.isBlank_eq_false_of_hexDigit?
        (Numeral.hexDigit?_ne_none_of_decimalDigit?
          (denotes.digit_ne_none member))
  have split : Text.words isBlank
      (['s', 't', 'e', 'p'] ++ ' ' :: Nat.toDigits 10 count) =
        [Keyword.step.name, Nat.toDigits 10 count] := by
    rw [Text.words_append_cons rfl, digits]
    rfl
  rw [Command.ofLine, split]
  simp only [Keyword.ofName?_name, Command.ofKeyword, List.head?_cons,
    Option.bind_some, size]

/-- With room for all output, `step` and `run` leave the machine where the run
with their budget leaves it. They print what the steps of that run raised, then
how it ended, and `run` warns if it did not. -/
theorem stepping_agrees_with_run (machine : Machine) (world : World)
    (free : world.room = none) :
    (∀ line count, Command.ofLine line = .step count →
      (Session.execute line : Session (StateM World) Flow).on machine world =
        ((.ok .proceed, (machine.run count).2),
          (world.noted (Machine.runEvents count machine)).printed
            (runLines machine count ++ ["done"]))) ∧
    (∀ line budget, Command.ofLine line = .run →
      budget = machine.config.stepBudget →
      (Session.execute line : Session (StateM World) Flow).on machine world =
        ((.ok .proceed, (machine.run budget).2),
          (world.noted (Machine.runEvents budget machine)).printed
            (runLines machine budget ++
              budgetLines budget (machine.run budget).1 ++ ["done"]))) ∧
    (∀ count, count < 2 ^ 64 →
      Command.ofLine (['s', 't', 'e', 'p'] ++ ' ' :: Nat.toDigits 10 count) =
        .step count) ∧
    Command.ofLine ['r', 'u', 'n'] = .run := by
  refine ⟨?_, ?_, ?_, rfl⟩
  · intro line count read
    rw [Session.execute, read]
    exact Session.on_perform_step count free
  · intro line budget read same
    rw [Session.execute, read]
    exact Session.on_perform_run same free
  · intro count small
    exact ofLine_step small

/-- A division by zero that the program survives, right before a load from
outside the memory. -/
theorem stepping_agrees_with_run_of_recovered :
    let machine := ((Machine.new Config.defaults).set 2 1000).after
      [.load (.ofWords [0x701, 0x102])]
    let world := World.new .empty none
    let line : Text := ['s', 't', 'e', 'p', ' ', '5']
    runLines machine 5 =
        [Diagnostic.message (.divideByZero 0),
          s!"error: {MemoryError.message (.outOfRange 1000 256)}"] ∧
      (Session.execute line : Session (StateM World) Flow).on machine world =
        ((.ok .proceed, (machine.run 5).2),
          (world.noted (Machine.runEvents 5 machine)).printed
            (runLines machine 5 ++ ["done"])) := by
  intro machine world line
  have raised : machine.raised 5 = [.divideByZero 0] := by decide
  have failed : (machine.run 5).1 = .error (.outOfRange 1000 256) := by decide
  have read : Command.ofLine line = .step 5 := by decide
  have free : world.room = none := rfl
  refine ⟨?_, (stepping_agrees_with_run machine world free).1 line 5 read⟩
  rw [runLines, raised, failed]
  rfl

end WordMachine.Console
