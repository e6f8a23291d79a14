import WordMachine.Config
import WordMachine.Event
import WordMachine.Proofs.Text.Numeral
import WordMachine.Proofs.Text.Trim

namespace WordMachine

/-! Which texts a variable can be used with, and what becomes of a field whose
variable is not set, can be used, or cannot. -/

/-- The value of a field in layers: that of its flag, else that of its variable if the
variable can be used, else the one below both. -/
inductive Decided {α : Type} (Usable : Text → α → Prop) (flag : Option α)
    (set : Option Text) (base : α) : α → Prop
  | flag {value : α} (given : flag = some value) : Decided Usable flag set base value
  | environment {text : Text} {value : α} (unflagged : flag = none)
      (present : set = some text) (usable : Usable text value) :
      Decided Usable flag set base value
  | base (unflagged : flag = none)
      (unusable : ∀ text, set = some text → ∀ value, ¬ Usable text value) :
      Decided Usable flag set base base

def Refusal.Names (refusal : Refusal) (name : String) : Prop :=
  ∃ reason, (Event.refused refusal).text = "WARN Ignoring " ++ name ++ ": " ++ reason

inductive Warned {α : Type} (Usable : Text → α → Prop) (name : String)
    (set : Option Text) : List Refusal → Prop
  | silent (fine : ∀ text, set = some text → ∃ value, Usable text value) :
      Warned Usable name set []
  | once {refusal : Refusal} {text : Text} (present : set = some text)
      (unusable : ∀ value, ¬ Usable text value) (names : refusal.Names name) :
      Warned Usable name set [refusal]

/-- A setting that takes the usable texts of a variable, and refuses all others under
the name of the variable. -/
structure Judges {α : Type} (Usable : Text → α → Prop) (name : String)
    (setting : Option Text → Setting α) : Prop where
  unset : setting none = .unset
  usable : ∀ text value, setting (some text) = .usable value ↔ Usable text value
  refused : ∀ text, (∀ value, ¬ Usable text value) →
    ∃ refusal, setting (some text) = .refused refusal ∧ refusal.Names name

section Judges

variable {α : Type} {Usable : Text → α → Prop} {name : String}
  {setting : Option Text → Setting α}

theorem Judges.decided_orKeep (judges : Judges Usable name setting)
    (flag : Option α) (set : Option Text) (base : α) :
    Decided Usable flag set base (flag.getD ((setting set).orKeep base)) := by
  cases flag with
  | some value => exact .flag rfl
  | none =>
      cases set with
      | none =>
          rw [judges.unset]
          exact .base rfl nofun
      | some text =>
          by_cases fine : ∃ value, Usable text value
          · obtain ⟨value, usable⟩ := fine
            rw [(judges.usable text value).mpr usable]
            exact .environment rfl rfl usable
          · have unusable := not_exists.mp fine
            obtain ⟨refusal, refused, _⟩ := judges.refused text unusable
            rw [refused]
            apply Decided.base rfl
            intro other present
            cases present
            exact unusable

theorem Judges.unique (judges : Judges Usable name setting) {text : Text}
    {first second : α} (usable : Usable text first) (usable' : Usable text second) :
    first = second := by
  have found := (judges.usable text first).mpr usable
  rw [(judges.usable text second).mpr usable'] at found
  exact (Setting.usable.inj found).symm

theorem Judges.decided_unique (judges : Judges Usable name setting) {flag : Option α}
    {set : Option Text} {base first second : α}
    (decided : Decided Usable flag set base first)
    (decided' : Decided Usable flag set base second) : first = second := by
  cases decided with
  | flag given =>
      cases given
      cases decided' with
      | flag given' => exact Option.some.inj given'
      | environment unflagged | base unflagged => cases unflagged
  | environment unflagged present usable =>
      cases unflagged
      cases present
      cases decided' with
      | flag given => cases given
      | environment _ present' usable' =>
          cases present'
          exact judges.unique usable usable'
      | base _ unusable => exact absurd usable (unusable _ rfl _)
  | base unflagged unusable =>
      cases unflagged
      cases decided' with
      | flag given => cases given
      | environment _ present usable => exact absurd usable (unusable _ present _)
      | base => rfl

theorem Judges.decided_iff (judges : Judges Usable name setting) (flag : Option α)
    (set : Option Text) (base value : α) :
    Decided Usable flag set base value ↔
      value = flag.getD ((setting set).orKeep base) := by
  constructor
  · intro decided
    exact judges.decided_unique decided (judges.decided_orKeep flag set base)
  · intro same
    rw [same]
    exact judges.decided_orKeep flag set base

theorem Judges.warned (judges : Judges Usable name setting) (set : Option Text) :
    Warned Usable name set (setting set).refusals := by
  cases set with
  | none =>
      rw [judges.unset]
      exact .silent nofun
  | some text =>
      by_cases fine : ∃ value, Usable text value
      · obtain ⟨value, usable⟩ := fine
        rw [(judges.usable text value).mpr usable]
        apply Warned.silent
        intro other present
        cases present
        exact ⟨value, usable⟩
      · have unusable := not_exists.mp fine
        obtain ⟨refusal, refused, names⟩ := judges.refused text unusable
        rw [refused]
        exact .once rfl unusable names

end Judges

namespace Config

/-- A number from `least` on that fits a size, in decimal digits behind at most a
plus sign. -/
def SpellsNumber (least : Nat) (text : Text) (number : Nat) : Prop :=
  ∃ core, Text.Trimmed isBlank text core ∧ Numeral.Unsigned core number ∧
    least ≤ number ∧ number < 2 ^ 64

inductive Means : Text → Bool → Prop
  | yes {word : Text}
      (listed : word ∈ [['1'], ['t', 'r', 'u', 'e'], ['y', 'e', 's'], ['o', 'n']]) :
      Means word true
  | no {word : Text}
      (listed : word ∈ [['0'], ['f', 'a', 'l', 's', 'e'], ['n', 'o'],
        ['o', 'f', 'f']]) : Means word false

def SpellsBoolean (text : Text) (answer : Bool) : Prop :=
  ∃ core, Text.Trimmed isBlank text core ∧ Means core.lower answer

variable {text : Text}

theorem spellsNumber_iff {least number : Nat} :
    SpellsNumber least text number ↔ number? text = some number ∧ least ≤ number := by
  rw [number?, Numeral.size?_eq_some_iff, SpellsNumber, Text.exists_trimmed_iff,
    and_assoc]
  exact and_congr_right' and_comm

private theorem boolean?_of_means {answer : Bool}
    (means : Means (text.trim isBlank).lower answer) : boolean? text = some answer := by
  unfold boolean?
  generalize (text.trim isBlank).lower = word at means
  cases means with
  | yes listed | no listed =>
      simp only [List.mem_cons, List.not_mem_nil, or_false] at listed
      rcases listed with rfl | rfl | rfl | rfl <;> rfl

theorem boolean?_eq_some_iff {answer : Bool} :
    boolean? text = some answer ↔ SpellsBoolean text answer := by
  rw [SpellsBoolean, Text.exists_trimmed_iff]
  refine ⟨?_, boolean?_of_means⟩
  intro read
  unfold boolean? at read
  simp only at read
  split at read
  next listed =>
      cases read
      exact .yes (List.contains_iff_mem.mp listed)
  next =>
      split at read
      next listed =>
          cases read
          exact .no (List.contains_iff_mem.mp listed)
      next => cases read

theorem names_of_message {refusal : Refusal} {name : String} (reason : String)
    (message : refusal.message = "Ignoring " ++ name ++ ": " ++ reason) :
    refusal.Names name := by
  have shown : (Event.refused refusal).text = "WARN" ++ " " ++ refusal.message := rfl
  have start : "WARN Ignoring " = "WARN" ++ " " ++ "Ignoring " := by decide
  refine ⟨reason, ?_⟩
  rw [shown, message, start]
  simp only [String.append_assoc]

theorem names_of_quotes {refusal : Refusal} {name quoted rest : String}
    (message : refusal.message = "Ignoring " ++ name ++ ": `" ++ quoted ++ rest) :
    refusal.Names name := by
  have mark : ": `" = ": " ++ "`" := by decide
  apply names_of_message ("`" ++ quoted ++ rest)
  rw [message, mark]
  simp only [String.append_assoc]

private theorem names_noCells : Refusal.noCells.Names capacityVariable :=
  names_of_message "memory needs at least one word" rfl

theorem judges_capacity :
    Judges (SpellsNumber 1) capacityVariable capacitySetting where
  unset := rfl
  usable text number := by
    rw [spellsNumber_iff, capacitySetting]
    cases number? text with
    | none => simp
    | some found =>
        cases found with
        | zero =>
            constructor
            · intro refused
              cases refused
            · intro positive
              obtain ⟨same, atLeast⟩ := positive
              cases same
              cases atLeast
        | succ found =>
            simp only [Setting.usable.injEq, Option.some.injEq, iff_self_and]
            omega
  refused text unusable := by
    rw [capacitySetting]
    cases found : number? text with
    | none => exact ⟨_, rfl, names_of_quotes rfl⟩
    | some number =>
        cases number with
        | zero => exact ⟨_, rfl, names_noCells⟩
        | succ number =>
            refine absurd (spellsNumber_iff.mpr ⟨found, ?_⟩) (unusable _)
            exact Nat.succ_pos number

theorem judges_stepBudget :
    Judges (SpellsNumber 0) stepBudgetVariable stepBudgetSetting where
  unset := rfl
  usable text number := by
    rw [spellsNumber_iff, stepBudgetSetting]
    cases number? text with
    | none => simp
    | some found => simp
  refused text unusable := by
    rw [stepBudgetSetting]
    cases found : number? text with
    | none => exact ⟨_, rfl, names_of_quotes rfl⟩
    | some number =>
        exact absurd (spellsNumber_iff.mpr ⟨found, Nat.zero_le number⟩) (unusable _)

theorem judges_persist : Judges SpellsBoolean persistVariable persistSetting where
  unset := rfl
  usable text answer := by
    rw [← boolean?_eq_some_iff, persistSetting]
    cases boolean? text with
    | none => simp
    | some found => simp
  refused text unusable := by
    rw [persistSetting]
    cases found : boolean? text with
    | none => exact ⟨_, rfl, names_of_quotes rfl⟩
    | some answer => exact absurd (boolean?_eq_some_iff.mp found) (unusable answer)

end Config

end WordMachine
