import WordMachine.Proofs.Console.Output
import WordMachine.Proofs.Machine.Source

namespace WordMachine.Console.Session

/-! What console commands do to the machine. A print that fails ends a command, but
neither prints nor their failures touch the machine. -/

def Keeps {α β : Type} (part : Machine → β)
    (session : Session (StateM World) α) : Prop :=
  ∀ machine world, part (session.on machine world).1.2 = part machine

variable {α β γ : Type} {part : Machine → γ}

theorem keeps_pure (value : α) :
    (pure value : Session (StateM World) α).Keeps part :=
  fun _ _ => rfl

private theorem keeps_throw (fault : Fault) :
    (throw fault : Session (StateM World) α).Keeps part :=
  fun _ _ => rfl

private theorem keeps_lift (action : StateM World α) :
    (liftM action : Session (StateM World) α).Keeps part :=
  fun _ _ => rfl

private theorem keeps_get : (get : Session (StateM World) Machine).Keeps part :=
  fun _ _ => rfl

private theorem part_bind {first : Session (StateM World) α}
    {next : α → Session (StateM World) β} (keeps : ∀ value, (next value).Keeps part)
    (machine : Machine) (world : World) :
    part ((first >>= next).on machine world).1.2 =
      part (first.on machine world).1.2 := by
  rw [on_bind]
  rcases first.on machine world with ⟨⟨error | value, after⟩, world'⟩
  · rfl
  · exact keeps value after world'

theorem Keeps.bind {first : Session (StateM World) α}
    {next : α → Session (StateM World) β} (keeps : first.Keeps part)
    (keeps' : ∀ value, (next value).Keeps part) : (first >>= next).Keeps part := by
  intro machine world
  exact (part_bind keeps' machine world).trans (keeps machine world)

theorem keeps_printLine (text : String) :
    (printLine text : Session (StateM World) Unit).Keeps part := by
  refine (keeps_lift (Host.print (text ++ "\n") : StateM World _)).bind ?_
  intro printed
  cases printed with
  | ok done => exact keeps_pure done
  | error fault => exact keeps_throw fault

private theorem keeps_printLines (lines : List String) :
    (printLines lines : Session (StateM World) Unit).Keeps part := by
  induction lines with
  | nil => exact keeps_pure ()
  | cons line rest induction =>
      exact (keeps_printLine line).bind fun _ => induction

private theorem keeps_step :
    (step : Session (StateM World) (Except MemoryError Status)).Keeps
      Machine.frame := by
  intro machine world
  rw [step, on_bind, on_get]
  dsimp only
  rw [on_bind, on_lift]
  dsimp only
  rw [on_bind, on_set]
  dsimp only
  refine Eq.trans ?_ machine.frame_step
  cases machine.step.2.diagnostic with
  | none => rfl
  | some diagnostic =>
      refine Keeps.bind (keeps_printLine _) ?_ machine.step.2 _
      exact fun _ => keeps_pure machine.step.1

private theorem keeps_steps (count : Nat) :
    (steps count : Session (StateM World) Ending).Keeps Machine.frame := by
  induction count with
  | zero => exact keeps_pure Ending.exhausted
  | succ count induction =>
      refine keeps_step.bind ?_
      intro stepped
      rcases stepped with error | _ | _
      · exact (keeps_printLine _).bind fun _ => keeps_pure Ending.failed
      · exact induction
      · exact (keeps_printLine _).bind fun _ => keeps_pure Ending.halted

private theorem keeps_runToBudget :
    (runToBudget : Session (StateM World) Unit).Keeps Machine.frame := by
  refine keeps_get.bind fun machine => ?_
  refine (keeps_steps machine.config.stepBudget).bind fun ending => ?_
  cases ending with
  | exhausted =>
      exact (keeps_printLine _).bind fun _ => keeps_printLine "done"
  | halted => exact keeps_printLine "done"
  | failed => exact keeps_printLine "done"

theorem keeps_perform {command : Command}
    (noLoad : ∀ path, command ≠ .load path) (noReset : command ≠ .reset) :
    (perform command : Session (StateM World) Flow).Keeps Machine.frame := by
  cases command with
  | blank => exact keeps_pure Flow.proceed
  | load path => exact absurd rfl (noLoad path)
  | memory | registers =>
      exact keeps_get.bind fun _ =>
        (keeps_printLine _).bind fun _ => keeps_pure Flow.proceed
  | step count =>
      exact (keeps_steps count).bind fun _ =>
        (keeps_printLine "done").bind fun _ => keeps_pure Flow.proceed
  | run => exact keeps_runToBudget.bind fun _ => keeps_pure Flow.proceed
  | reset => exact absurd rfl noReset
  | help => exact (keeps_printLines helpLines).bind fun _ => keeps_pure Flow.proceed
  | quit => exact keeps_pure Flow.quit
  | loadNothing | stepUnclear | unknown =>
      exact (keeps_printLine _).bind fun _ => keeps_pure Flow.proceed

theorem Keeps.machine {session : Session (StateM World) α}
    (keeps : session.Keeps id) (machine : Machine) (world : World) :
    (session.on machine world).1.2 = machine :=
  keeps machine world

private theorem machine_bind {first : Session (StateM World) α}
    {next : α → Session (StateM World) β} (keeps : ∀ value, (next value).Keeps id)
    (machine : Machine) (world : World) :
    ((first >>= next).on machine world).1.2 = (first.on machine world).1.2 :=
  part_bind keeps machine world

theorem machine_perform_reset (machine : Machine) (world : World) :
    ((perform .reset : Session (StateM World) Flow).on machine world).1.2 =
      machine.reset := by
  rw [perform, machine_bind]
  · rfl
  · intro _
    exact (keeps_printLine "done").bind fun _ => keeps_pure Flow.proceed

theorem machine_load (path : Path) (machine : Machine) (world : World) :
    ((load path : Session (StateM World) Unit).on machine world).1.2 =
      ((machine.loadFile path : StateM World _) world).1.2 := by
  simp only [load, on_bind, on_get, on_lift, on_set]
  rcases (machine.loadFile path : StateM World _) world with
    ⟨⟨error | file, after⟩, world'⟩
  · exact (keeps_printLine error.message).machine after world'
  · dsimp only
    cases file.unsaved with
    | none => exact (keeps_printLine "done").machine after world'
    | some fault =>
        refine Keeps.machine ((keeps_printLine _).bind ?_) after world'
        exact fun _ => keeps_printLine "done"

theorem machine_perform_load (path : Path) (machine : Machine) (world : World) :
    ((perform (.load path) : Session (StateM World) Flow).on machine
      world).1.2 = ((machine.loadFile path : StateM World _) world).1.2 := by
  rw [perform, machine_bind, machine_load]
  exact fun _ => keeps_pure Flow.proceed

end WordMachine.Console.Session
