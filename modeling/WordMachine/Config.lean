import WordMachine.Text.Blank
import WordMachine.Text.Numeral

namespace WordMachine

/-! The configuration of a machine, and variables that override it. A variable
that cannot be used leaves its field alone and is refused with a reason. -/

structure Config where
  capacity : Nat
  stepBudget : Nat
  persist : Bool
  assemblyExtension : Text
  deriving DecidableEq, Repr

inductive Refusal where
  | notNumber (variableName : String) (value : Text)
  | noCells
  | notBoolean (value : Text)
  deriving DecidableEq, Repr

inductive Setting (α : Type) where
  | unset
  | usable (value : α)
  | refused (refusal : Refusal)
  deriving DecidableEq, Repr

namespace Setting

variable {α : Type}

/-- The value of a field that had a value before. -/
def orKeep (previous : α) : Setting α → α
  | .usable value => value
  | _ => previous

def refusals : Setting α → List Refusal
  | .refused refusal => [refusal]
  | _ => []

@[simp] theorem orKeep_unset (previous : α) : orKeep previous .unset = previous := rfl

@[simp] theorem orKeep_usable (previous value : α) :
    orKeep previous (.usable value) = value := rfl

@[simp] theorem orKeep_refused (previous : α) (refusal : Refusal) :
    orKeep previous (.refused refusal) = previous := rfl

@[simp] theorem orKeep_orKeep (previous : α) (setting : Setting α) :
    setting.orKeep (setting.orKeep previous) = setting.orKeep previous := by
  cases setting <;> rfl

end Setting

namespace Config

def defaults : Config :=
  ⟨256, 10000, false, ['a', 's', 'm']⟩

def capacityVariable : String := "MICRO1_CAPACITY"

def stepBudgetVariable : String := "MICRO1_STEP_BUDGET"

def persistVariable : String := "MICRO1_PERSIST"

def number? (value : Text) : Option Nat :=
  Numeral.size? (value.trim isBlank)

def capacitySetting : Option Text → Setting Nat
  | none => .unset
  | some value =>
      match number? value with
      | some 0 => .refused .noCells
      | some capacity => .usable capacity
      | none => .refused (.notNumber capacityVariable value)

def stepBudgetSetting : Option Text → Setting Nat
  | none => .unset
  | some value =>
      match number? value with
      | some budget => .usable budget
      | none => .refused (.notNumber stepBudgetVariable value)

def boolean? (value : Text) : Option Bool :=
  let word := (value.trim isBlank).lower
  if [['1'], ['t', 'r', 'u', 'e'], ['y', 'e', 's'], ['o', 'n']].contains word then
    some true
  else if [['0'], ['f', 'a', 'l', 's', 'e'], ['n', 'o'],
      ['o', 'f', 'f']].contains word then
    some false
  else
    none

def persistSetting : Option Text → Setting Bool
  | none => .unset
  | some value =>
      match boolean? value with
      | some persist => .usable persist
      | none => .refused (.notBoolean value)

def override (config : Config) (lookup : String → Option Text) : Config :=
  { config with
    capacity := (capacitySetting (lookup capacityVariable)).orKeep config.capacity
    stepBudget :=
      (stepBudgetSetting (lookup stepBudgetVariable)).orKeep config.stepBudget
    persist := (persistSetting (lookup persistVariable)).orKeep config.persist }

def refusals (lookup : String → Option Text) : List Refusal :=
  (capacitySetting (lookup capacityVariable)).refusals ++
    (stepBudgetSetting (lookup stepBudgetVariable)).refusals ++
      (persistSetting (lookup persistVariable)).refusals

theorem override_override (config : Config) (lookup : String → Option Text) :
    (config.override lookup).override lookup = config.override lookup := by
  simp [override]

end Config

namespace Refusal

def message : Refusal → String
  | .notNumber variableName value =>
      let shown := String.ofList value
      s!"Ignoring {variableName}: `{shown}` is not a valid value"
  | .noCells =>
      s!"Ignoring {Config.capacityVariable}: memory needs at least one word"
  | .notBoolean value =>
      let shown := String.ofList value
      s!"Ignoring {Config.persistVariable}: `{shown}` is not a boolean"

end Refusal

end WordMachine
