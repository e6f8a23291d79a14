import WordMachine.Proofs.CommandLine.Run
import WordMachine.Proofs.Config

namespace WordMachine.CommandLine

/-! The configuration of the program: its options lie over its variables, and these
lie over the defaults, each field for itself. -/

structure Layered (flags : Arguments) (lookup : String → Option Text)
    (base config : Config) : Prop where
  capacity : ∀ number, Decided (Config.SpellsNumber 1) flags.capacity
    (lookup "MICRO1_CAPACITY") base.capacity number ↔ number = config.capacity
  stepBudget : ∀ number, Decided (Config.SpellsNumber 0) flags.steps
    (lookup "MICRO1_STEP_BUDGET") base.stepBudget number ↔ number = config.stepBudget
  persist : ∀ answer, Decided Config.SpellsBoolean
    (if flags.persist then some true else none) (lookup "MICRO1_PERSIST") base.persist
      answer ↔ answer = config.persist
  assemblyExtension : config.assemblyExtension = base.assemblyExtension

inductive WarnsOnce (lookup : String → Option Text) : List Refusal → Prop
  | intro {first second third : List Refusal}
      (capacity : Warned (Config.SpellsNumber 1) "MICRO1_CAPACITY"
        (lookup "MICRO1_CAPACITY") first)
      (stepBudget : Warned (Config.SpellsNumber 0) "MICRO1_STEP_BUDGET"
        (lookup "MICRO1_STEP_BUDGET") second)
      (persist : Warned Config.SpellsBoolean "MICRO1_PERSIST"
        (lookup "MICRO1_PERSIST") third) :
      WarnsOnce lookup (first ++ second ++ third)

variable {Given : Type} {reader : Reader Given} {lookup : String → Option Text}
  {given : List Given} {world after : World} {arguments : Arguments} {config : Config}
  {machine : Machine}

theorem layered_configure (flags : Arguments) (lookup : String → Option Text)
    (base : Config) :
    Layered flags lookup base (flags.configure (base.override lookup)) where
  capacity := Config.judges_capacity.decided_iff _ _ _
  stepBudget := Config.judges_stepBudget.decided_iff _ _ _
  persist answer := by
    rw [Config.judges_persist.decided_iff]
    change _ ↔ answer = (flags.persist || _)
    cases flags.persist with
    | false => exact Iff.rfl
    | true => exact Iff.rfl
  assemblyExtension := rfl

private theorem warnsOnce_refusals (lookup : String → Option Text) :
    WarnsOnce lookup (Config.refusals lookup) :=
  .intro (Config.judges_capacity.warned _) (Config.judges_stepBudget.warned _)
    (Config.judges_persist.warned _)

private theorem one_le_capacity_of_layered {flags : Arguments} {base : Config}
    (layered : Layered flags lookup base config) (sized : flags.Sized)
    (cells : 1 ≤ base.capacity) : 1 ≤ config.capacity := by
  have decided := (layered.capacity config.capacity).mpr rfl
  generalize config.capacity = number at decided
  cases decided with
  | flag given => exact sized _ given
  | environment _ _ usable =>
      obtain ⟨_, _, _, atLeast, _⟩ := usable
      exact atLeast
  | base => exact cells

private theorem config_of_prepare
    (prepared : (prepare arguments config : StateM World _) world =
      (.ok machine, after)) :
    machine.config = config ∧ machine.memory.capacity = config.capacity := by
  cases named : arguments.file with
  | none =>
      rw [prepare, named] at prepared
      cases prepared
      exact ⟨rfl, rfl⟩
  | some path =>
      rw [prepare_world named] at prepared
      rcases load : ((Machine.new config).loadFile path : StateM World _) world with
        ⟨⟨error | file, loaded⟩, after'⟩
      · rw [load] at prepared
        cases prepared
      · rw [load] at prepared
        cases prepared
        obtain ⟨_, installed⟩ := Machine.loadFile_eq_ok load
        exact ⟨Machine.config_of_load installed, Machine.capacity_of_load installed⟩

private theorem start_of_prepare (accepted : reader given = .start arguments)
    (configured : arguments.configure (Config.defaults.override lookup) = config)
    (prepared : (prepare arguments config : StateM World _)
      (world.noted (warnings lookup)) = (.ok machine, after)) :
    ((start reader lookup given : StateM World Startup) world).1 =
      if arguments.run then .exit ((runToHalt machine : StateM World Nat) after).1
      else .console machine := by
  rw [start_world accepted configured, prepared]
  cases arguments.run with
  | true => rfl
  | false => rfl

/-- Each field of the configuration is that of its option, else that of its variable
if the variable can be used, else the default. The machine that runs a file, or that
a console opens on, is made with this configuration, and it has at least one cell.
Over any other configuration the variables lie in the same way, and once is as good
as twice. A variable that is set and cannot be used costs one warning. -/
theorem configuration_is_layered {Given : Type} {reader : Reader Given} {asking : Given}
    (documented : reader.Documented asking) (lookup : String → Option Text) :
    (∀ flags : Arguments, Layered flags lookup ⟨256, 10000, false, ['a', 's', 'm']⟩
      (flags.configure (Config.defaults.override lookup))) ∧
    (∀ given flags, reader given = .start flags →
      let config := flags.configure (Config.defaults.override lookup)
      1 ≤ config.capacity ∧ ∀ world machine after,
        (prepare flags config : StateM World _) (world.noted (warnings lookup)) =
            (.ok machine, after) →
          machine.config = config ∧ machine.memory.capacity = config.capacity ∧
          ((start reader lookup given : StateM World Startup) world).1 =
            if flags.run then .exit ((runToHalt machine : StateM World Nat) after).1
            else .console machine) ∧
    (∀ base : Config, Layered .empty lookup base (base.override lookup) ∧
      (base.override lookup).override lookup = base.override lookup) ∧
    WarnsOnce lookup (Config.refusals lookup) := by
  refine ⟨fun flags => layered_configure flags lookup _, ?_, ?_,
    warnsOnce_refusals lookup⟩
  · intro given flags accepted config
    have layered := layered_configure flags lookup Config.defaults
    refine ⟨one_le_capacity_of_layered layered (documented.sized accepted) (by decide), ?_⟩
    intro world machine after prepared
    obtain ⟨same, cells⟩ := config_of_prepare prepared
    exact ⟨same, cells, start_of_prepare accepted rfl prepared⟩
  · intro base
    exact ⟨layered_configure .empty lookup base, base.override_override lookup⟩

/-- An option over a variable that asks for no cells, a number behind a plus sign,
and a word that is neither yes nor no. -/
theorem configuration_is_layered_of_odd_variables :
    let lookup : String → Option Text := fun name =>
      if name = "MICRO1_CAPACITY" then some ['0']
      else if name = "MICRO1_STEP_BUDGET" then some [' ', '+', '7', '\t']
      else some ['m', 'a', 'y', 'b', 'e']
    let flags : Arguments := ⟨none, none, none, true, false⟩
    let texts : List Text := [['-', '-', 'p', 'e', 'r', 's', 'i', 's', 't']]
    let config : Config := ⟨256, 7, true, ['a', 's', 'm']⟩
    Invocation.ofArguments texts = .start flags ∧
      flags.configure (Config.defaults.override lookup) = config ∧
      Config.refusals lookup = [.noCells, .notBoolean ['m', 'a', 'y', 'b', 'e']] ∧
      ∀ world, ((start Invocation.ofArguments lookup texts :
        StateM World Startup) world).1 = .console (.new config) := by
  intro lookup flags texts config
  have accepted : Invocation.ofArguments texts = .start flags := by decide
  have configured : flags.configure (Config.defaults.override lookup) = config := by
    decide
  refine ⟨accepted, configured, by decide, fun world => ?_⟩
  obtain ⟨_, started, _⟩ := configuration_is_layered documented_ofArguments lookup
  obtain ⟨_, opened⟩ := started texts flags accepted
  rw [configured] at opened
  exact (opened world (.new config) _ rfl).2.2

end WordMachine.CommandLine
