import Mathlib.Data.Nat.Basic
import WordMachine.Machine.Operation

namespace WordMachine

/-! The steps of a bounded run one by one, and what they raise. -/

def RunSummary.delayed (summary : RunSummary) : RunSummary :=
  ⟨summary.executed + 1, summary.status⟩

def RunSummary.delayedBy (steps : Nat) (summary : RunSummary) : RunSummary :=
  ⟨summary.executed + steps, summary.status⟩

namespace Machine

/-- A run counts on from the steps that were completed before it. -/
theorem runFrom_add (base executed budget : Nat) (machine : Machine) :
    runFrom (base + executed) budget machine =
      (runFrom base budget machine).map
        (Except.map (RunSummary.delayedBy executed)) id := by
  induction budget generalizing base machine with
  | zero => rfl
  | succ budget induction =>
      simp only [runFrom]
      rw [Nat.add_right_comm]
      split
      next => rfl
      next => rfl
      next after _ => exact induction (base + 1) after

theorem run_of_running {machine after : Machine}
    (step : machine.step = (.ok .running, after)) (budget : Nat) :
    machine.run (budget + 1) =
      (after.run budget).map (Except.map .delayed) id := by
  simp only [run, runFrom, step]
  exact runFrom_add 0 1 budget after

theorem run_of_halted {machine after : Machine}
    (step : machine.step = (.ok .halted, after)) (budget : Nat) :
    machine.run (budget + 1) = (.ok ⟨1, .halted⟩, after) := by
  simp only [run, runFrom, step]

theorem run_of_error {machine after : Machine} {error : MemoryError}
    (step : machine.step = (.error error, after)) (budget : Nat) :
    machine.run (budget + 1) = (.error error, after) := by
  simp only [run, runFrom, step]

theorem runEvents_of_running {machine after : Machine}
    (stepped : machine.step = (.ok .running, after)) (count : Nat) :
    runEvents (count + 1) machine =
      machine.stepEvents ++ runEvents count after := by
  rw [runEvents, stepped]

theorem runEvents_of_ne_running {machine : Machine}
    (ended : machine.step.1 ≠ .ok .running) (count : Nat) :
    runEvents (count + 1) machine = machine.stepEvents := by
  rw [runEvents]
  split
  next after stepped => exact absurd (congrArg Prod.fst stepped) ended
  next => exact List.append_nil _

theorem runEvents_one (machine : Machine) :
    runEvents 1 machine = machine.stepEvents := by
  unfold runEvents
  split
  · exact List.append_nil _
  · exact List.append_nil _

/-- The machine after a number of steps, whatever they returned. -/
def afterSteps (machine : Machine) (count : Nat) : Machine :=
  machine.after (List.replicate count .step)

theorem afterSteps_succ (machine : Machine) (count : Nat) :
    machine.afterSteps (count + 1) = (machine.afterSteps count).step.2 := by
  rw [afterSteps, List.replicate_succ', after_append]
  rfl

theorem capacity_afterSteps (machine : Machine) (count : Nat) :
    (machine.afterSteps count).memory.capacity = machine.memory.capacity := by
  induction count with
  | zero => rfl
  | succ count induction => rw [afterSteps_succ, capacity_of_step, induction]

/-- A run takes a step within its budget if all steps before it went on
running. -/
def Takes (machine : Machine) (budget index : Nat) : Prop :=
  index < budget ∧ ∀ earlier < index,
    (machine.afterSteps earlier).step.1 = .ok .running

instance (machine : Machine) (budget index : Nat) :
    Decidable (machine.Takes budget index) :=
  inferInstanceAs (Decidable (_ ∧ _))

theorem takes_zero (machine : Machine) (budget : Nat) :
    machine.Takes (budget + 1) 0 :=
  ⟨Nat.succ_pos budget, fun _ before => absurd before (Nat.not_lt_zero _)⟩

theorem takes_succ_iff {machine : Machine} {budget index : Nat} :
    machine.Takes (budget + 1) (index + 1) ↔
      machine.step.1 = .ok .running ∧ machine.step.2.Takes budget index := by
  constructor
  · intro taken
    obtain ⟨within, before⟩ := taken
    refine ⟨before 0 (Nat.succ_pos index), Nat.lt_of_succ_lt_succ within, ?_⟩
    intro earlier earlierBefore
    exact before (earlier + 1) (Nat.succ_lt_succ earlierBefore)
  · intro taken
    obtain ⟨running, within, before⟩ := taken
    refine ⟨Nat.succ_lt_succ within, ?_⟩
    intro earlier earlierBefore
    cases earlier with
    | zero => exact running
    | succ earlier => exact before earlier (Nat.lt_of_succ_lt_succ earlierBefore)

def Continues (machine : Machine) (count : Nat) : Prop :=
  ∀ index < count, (machine.afterSteps index).step.1 = .ok .running

/-- How a run ends, by the results of the steps it takes. -/
inductive Ends (machine : Machine) (budget : Nat) :
    Except MemoryError RunSummary × Machine → Prop
  | running (continues : machine.Continues budget) :
      Ends machine budget (.ok ⟨budget, .running⟩, machine.afterSteps budget)
  | halted {last : Nat} (taken : machine.Takes budget last)
      (halts : (machine.afterSteps last).step.1 = .ok .halted) :
      Ends machine budget
        (.ok ⟨last + 1, .halted⟩, (machine.afterSteps last).step.2)
  | failed {last : Nat} {error : MemoryError} (taken : machine.Takes budget last)
      (fails : (machine.afterSteps last).step.1 = .error error) :
      Ends machine budget (.error error, (machine.afterSteps last).step.2)

section Ends

variable {machine : Machine} {budget : Nat}

theorem Takes.mono {larger index : Nat} (taken : machine.Takes budget index)
    (le : budget ≤ larger) : machine.Takes larger index :=
  ⟨Nat.lt_of_lt_of_le taken.1 le, taken.2⟩

theorem Takes.of_le {index last : Nat} (taken : machine.Takes budget last)
    (le : index ≤ last) : machine.Takes budget index :=
  ⟨Nat.lt_of_le_of_lt le taken.1, fun earlier before =>
    taken.2 earlier (Nat.lt_of_lt_of_le before le)⟩

theorem Continues.takes {index : Nat} (continues : machine.Continues budget)
    (within : index < budget) : machine.Takes budget index :=
  ⟨within, fun earlier before =>
    continues earlier (Nat.lt_trans before within)⟩

theorem Continues.succ {count : Nat} (continues : machine.Continues count)
    (running : (machine.afterSteps count).step.1 = .ok .running) :
    machine.Continues (count + 1) := by
  intro index before
  rcases Nat.lt_succ_iff_lt_or_eq.mp before with early | rfl
  · exact continues index early
  · exact running

theorem runFrom_of_continues {count : Nat} (continues : machine.Continues count)
    (executed more : Nat) :
    runFrom executed (count + more) machine =
      runFrom (executed + count) more (machine.afterSteps count) := by
  induction count generalizing machine executed with
  | zero =>
      rw [Nat.zero_add]
      rfl
  | succ count induction =>
      obtain ⟨running, taken⟩ := takes_succ_iff.mp
        ⟨Nat.lt_succ_self (count + 1), continues⟩
      have stepped : machine.step = (.ok .running, machine.step.2) :=
        Prod.ext running rfl
      rw [Nat.add_right_comm, runFrom, stepped, ← Nat.add_assoc,
        Nat.add_right_comm executed]
      exact induction taken.2 (executed + 1)

theorem run_add {count : Nat} (continues : machine.Continues count) (more : Nat) :
    machine.run (count + more) =
      ((machine.afterSteps count).run more).map
        (Except.map (RunSummary.delayedBy count)) id := by
  rw [run, runFrom_of_continues continues, runFrom_add]
  rfl

theorem run_of_ends {outcome : Except MemoryError RunSummary × Machine}
    (ends : machine.Ends budget outcome) : machine.run budget = outcome := by
  cases ends with
  | running continues =>
      have ended := runFrom_of_continues continues 0 0
      rwa [Nat.add_zero, Nat.zero_add] at ended
  | @halted last taken halts =>
      have stepped : (machine.afterSteps last).step = (.ok .halted, _) :=
        Prod.ext halts rfl
      obtain ⟨more, rfl⟩ := Nat.exists_eq_add_of_lt taken.1
      rw [Nat.add_assoc, run_add taken.2, run_of_halted stepped, Prod.map,
        Except.map, RunSummary.delayedBy, Nat.add_comm 1 last]
      rfl
  | @failed last error taken fails =>
      have stepped : (machine.afterSteps last).step = (.error error, _) :=
        Prod.ext fails rfl
      obtain ⟨more, rfl⟩ := Nat.exists_eq_add_of_lt taken.1
      rw [Nat.add_assoc, run_add taken.2, run_of_error stepped]
      rfl

theorem exists_ends (machine : Machine) (budget : Nat) :
    ∃ outcome, machine.Ends budget outcome := by
  induction budget with
  | zero => exact ⟨_, .running fun _ before => absurd before (Nat.not_lt_zero _)⟩
  | succ budget induction =>
      have within := Nat.lt_succ_self budget
      obtain ⟨_, ends⟩ := induction
      cases ends with
      | running continues =>
          rcases result : (machine.afterSteps budget).step.1 with error | _ | _
          · exact ⟨_, .failed ⟨within, continues⟩ result⟩
          · exact ⟨_, .running (continues.succ result)⟩
          · exact ⟨_, .halted ⟨within, continues⟩ result⟩
      | halted taken halts =>
          exact ⟨_, .halted (taken.mono (Nat.le_of_lt within)) halts⟩
      | failed taken fails =>
          exact ⟨_, .failed (taken.mono (Nat.le_of_lt within)) fails⟩

theorem run_eq_iff_ends {outcome : Except MemoryError RunSummary × Machine} :
    machine.run budget = outcome ↔ machine.Ends budget outcome := by
  refine ⟨?_, run_of_ends⟩
  rintro rfl
  obtain ⟨outcome, ends⟩ := machine.exists_ends budget
  rwa [run_of_ends ends]

theorem run_eq_error_iff {error : MemoryError} :
    (machine.run budget).1 = .error error ↔
      ∃ index, machine.Takes budget index ∧
        (machine.afterSteps index).step.1 = .error error := by
  constructor
  · intro failed
    have ends := run_eq_iff_ends.mp (Prod.ext failed rfl :
      machine.run budget = (.error error, (machine.run budget).2))
    generalize (machine.run budget).2 = after at ends
    cases ends with
    | failed taken fails => exact ⟨_, taken, fails⟩
  · rintro ⟨index, taken, fails⟩
    rw [run_of_ends (.failed taken fails)]

theorem executed_of_running {executed : Nat}
    (finished : (machine.run budget).1 = .ok ⟨executed, .running⟩) :
    executed = budget := by
  have ends := run_eq_iff_ends.mp (Prod.ext finished rfl :
    machine.run budget = (.ok ⟨executed, .running⟩, (machine.run budget).2))
  generalize (machine.run budget).2 = after at ends
  cases ends with
  | running continues => rfl

end Ends

def Survives (machine : Machine) (budget : Nat) : Prop :=
  ∀ index error, machine.Takes budget index →
    (machine.afterSteps index).step.1 ≠ .error error

theorem survives_iff {machine : Machine} {budget : Nat} :
    machine.Survives budget ↔
      ∃ summary, (machine.run budget).1 = .ok summary := by
  cases finished : (machine.run budget).1 with
  | error cause =>
      obtain ⟨index, taken, failed⟩ := run_eq_error_iff.mp finished
      simp only [reduceCtorEq, exists_false, iff_false]
      exact fun survives => survives index cause taken failed
  | ok summary =>
      simp only [Except.ok.injEq, exists_eq', iff_true]
      intro index error taken failed
      have failed' := run_eq_error_iff.mpr ⟨index, taken, failed⟩
      rw [finished] at failed'
      cases failed'

def raised (machine : Machine) (budget : Nat) : List Diagnostic :=
  (List.range budget).flatMap fun index =>
    if machine.Takes budget index then
      (machine.afterSteps (index + 1)).diagnostic.toList
    else []

theorem raised_succ (machine : Machine) (budget : Nat) :
    machine.raised (budget + 1) =
      machine.step.2.diagnostic.toList ++
        if machine.step.1 = .ok .running then machine.step.2.raised budget
        else [] := by
  rw [raised, List.range_succ_eq_map, List.flatMap_cons, List.flatMap_map,
    if_pos (machine.takes_zero budget)]
  congr 1
  by_cases running : machine.step.1 = .ok .running
  · simp only [takes_succ_iff, running, true_and, if_true]
    rfl
  · simp only [takes_succ_iff, running, false_and, if_false,
      List.flatMap_eq_nil_iff, implies_true]

end Machine

end WordMachine
