import WordMachine.Proofs.Isa.Fault
import WordMachine.Proofs.Machine.Steps

namespace WordMachine.Machine

/-! The budget of a run may be cut in two, and a run that has ended does not depend
on the rest of its budget. -/

/-- A step that fails leaves the machine as it was, without the diagnostic of the
step before it. -/
def undiagnosed (machine : Machine) : Machine :=
  { machine with processor := ⟨machine.processor.cpu, none⟩ }

theorem step_of_fails {machine : Machine} {error : MemoryError}
    (fails : machine.step.1 = .error error) :
    machine.step = (.error error, machine.undiagnosed) := by
  have outcome := Isa.step_of_result_eq_error fails
  rw [Machine.step, outcome]
  rfl

private theorem step_undiagnosed (machine : Machine) :
    machine.undiagnosed.step = machine.step :=
  rfl

/-- Runs compose and count their steps. A run that does not end has taken all the
steps of its budget, and a larger budget goes on from there. A run that halts does
so at the first step that halts, with every budget that reaches this step. A run
that fails stops before the step that fails, which clears the diagnostic and
changes nothing else, with every larger budget, and fails again from there. -/
theorem runs_compose_and_count (machine : Machine) (budget : Nat) :
    (∀ executed after, machine.run budget = (.ok ⟨executed, .running⟩, after) →
      executed = budget ∧ after = machine.afterSteps budget ∧
      (∀ index < budget, (machine.afterSteps index).step.1 = .ok .running) ∧
      ∀ more, machine.run (budget + more) =
        (after.run more).map (Except.map (RunSummary.delayedBy budget)) id) ∧
    (∀ executed after, machine.run budget = (.ok ⟨executed, .halted⟩, after) →
      1 ≤ executed ∧ executed ≤ budget ∧ after = machine.afterSteps executed ∧
      (∀ index < executed - 1,
        (machine.afterSteps index).step.1 = .ok .running) ∧
      (machine.afterSteps (executed - 1)).step.1 = .ok .halted ∧
      ∀ larger, executed ≤ larger →
        machine.run larger = (.ok ⟨executed, .halted⟩, after)) ∧
    ∀ error after, machine.run budget = (.error error, after) →
      ∃ last < budget,
        (∀ index < last, (machine.afterSteps index).step.1 = .ok .running) ∧
        (machine.afterSteps last).step.1 = .error error ∧
        after = (machine.afterSteps last).undiagnosed ∧
        (∀ more, machine.run (budget + more) = (.error error, after)) ∧
        ∀ more, after.run (more + 1) = (.error error, after) := by
  refine ⟨?_, ?_, ?_⟩
  · intro executed after finished
    cases run_eq_iff_ends.mp finished with
    | running continues => exact ⟨rfl, rfl, continues, run_add continues⟩
  · intro executed after finished
    cases run_eq_iff_ends.mp finished with
    | @halted last taken halts =>
        refine ⟨Nat.succ_pos last, taken.1, (afterSteps_succ machine last).symm,
          taken.2, halts, ?_⟩
        intro larger reached
        exact run_of_ends (.halted ⟨reached, taken.2⟩ halts)
  · intro error after finished
    cases run_eq_iff_ends.mp finished with
    | @failed last _ taken fails =>
        have failed := step_of_fails fails
        refine ⟨last, taken.1, taken.2, fails, congrArg Prod.snd failed, ?_, ?_⟩
        · intro more
          exact run_of_ends (.failed (taken.mono (Nat.le_add_right _ more)) fails)
        · intro more
          rw [failed]
          rw [← step_undiagnosed] at failed
          exact run_of_error failed more

/-- A machine that halts at its second step does so with every larger budget. -/
theorem runs_compose_and_count_of_second_step :
    let machine := (new { Config.defaults with capacity := 2 }).after
      [.load (.ofWords [0x700])]
    (machine.run 1).1 = .ok ⟨1, .running⟩ ∧ (machine.run 2).1 = .ok ⟨2, .halted⟩ ∧
      ∀ larger, 2 ≤ larger → machine.run larger = machine.run 2 := by
  intro machine
  have halted : machine.run 2 = (.ok ⟨2, .halted⟩, (machine.run 2).2) :=
    Prod.ext (by decide) rfl
  obtain ⟨_, _, _, _, _, larger⟩ :=
    (runs_compose_and_count machine 2).2.1 2 (machine.run 2).2 halted
  refine ⟨by decide, by decide, ?_⟩
  intro budget reached
  rw [larger budget reached, ← halted]

/-- The failing step of a run drops the diagnostic of the step before it, so the
state is not the one after that step. -/
theorem failed_run_drops_diagnostic :
    let machine := (new { Config.defaults with capacity := 1 }).after
      [.load (.ofWords [0x700])]
    (machine.run 2).1 = .error (.outOfRange 1 1) ∧
      (machine.afterSteps 0).step.1 = .ok .running ∧
      (machine.afterSteps 1).step.1 = .error (.outOfRange 1 1) ∧
      (machine.afterSteps 1).diagnostic = some (.divideByZero 0) ∧
      (machine.run 2).2.diagnostic = none ∧
      (machine.run 2).2 ≠ machine.afterSteps 1 := by
  intro machine
  have before : (machine.afterSteps 1).diagnostic = some (.divideByZero 0) := by
    decide
  have after : (machine.run 2).2.diagnostic = none := by decide
  refine ⟨by decide, by decide, by decide, before, after, ?_⟩
  intro same
  rw [same, before] at after
  cases after

end WordMachine.Machine
