import WordMachine.CommandLine.Arguments

namespace WordMachine.CommandLine

/-! What is known of the reader of the arguments, and the reader from left to right
as an instance of it. -/

def runFlag : Text :=
  ['-', '-', 'r', 'u', 'n']

namespace Item

private theorem eq_of_ofText_eq_long {name : Text}
    (form : ofText text = .long name none) :
    text = '-' :: '-' :: name := by
  unfold ofText at form
  split at form
  next => cases form
  next option _ =>
      split at form
      · cases form
      · cases form
        rfl
  next => cases form
  next => cases form

end Item

namespace Switch

private theorem name_of_ofName? {text : Text} {switch : Switch}
    (found : ofName? text = some switch) : switch.name = text := by
  have matching := List.find?_some found
  simpa using matching

end Switch

namespace Arguments

def onConsole (arguments : Arguments) : Arguments :=
  { arguments with run := false }

/-- Arguments that do not ask for a memory without cells. -/
def Sized (arguments : Arguments) : Prop :=
  ∀ capacity, arguments.capacity = some capacity → 1 ≤ capacity

/-- What a text makes of the arguments before it, unless it is the last option. -/
private inductive Advances (arguments : Arguments) :
    Option Switch → Text → Arguments → Option Switch → Prop
  | value {switch : Switch} {text value : Text} {given : Arguments}
      (form : Item.ofText text = .positional value)
      (gives : arguments.give switch value = some given) :
      Advances arguments (some switch) text given none
  | file {text value : Text} {placed : Arguments}
      (form : Item.ofText text = .positional value)
      (places : arguments.place value = some placed) :
      Advances arguments none text placed none
  | option {text name : Text} {switch : Switch}
      (form : Item.ofText text = .long name none)
      (named : Switch.ofName? name = some switch)
      (valued : switch.takesValue = true) :
      Advances arguments none text arguments (some switch)
  | assignment {text name value : Text} {switch : Switch} {given : Arguments}
      (form : Item.ofText text = .long name (some value))
      (named : Switch.ofName? name = some switch)
      (gives : arguments.give switch value = some given) :
      Advances arguments none text given none
  | flag {text name : Text} {switch : Switch} {raised : Arguments}
      (form : Item.ofText text = .long name none)
      (named : Switch.ofName? name = some switch)
      (raises : arguments.raise switch = some raised) :
      Advances arguments none text raised none

variable {arguments next final : Arguments} {awaiting awaiting' : Option Switch}
  {text : Text} {texts rest : List Text}

private theorem Advances.read (advances : Advances arguments awaiting text next awaiting')
    (rest : List Text) :
    arguments.read awaiting (text :: rest) = next.read awaiting' rest := by
  cases advances with
  | value form gives => simp only [Arguments.read, form, gives]
  | file form places => simp only [Arguments.read, form, places]
  | @option text name switch form named valued =>
      cases switch with
      | capacity | steps =>
          simp only [Arguments.read, form, named, valued, if_true]
      | persist | run | help | version => cases valued
  | assignment form named gives => simp only [Arguments.read, form, named, gives]
  | @flag text name switch raised form named raises =>
      cases switch with
      | persist | run =>
          simp only [Arguments.read, form, named, raises, Switch.takesValue,
            Bool.false_eq_true, if_false]
      | capacity | steps | help | version => cases raises

private theorem advances_of_read
    (started : arguments.read awaiting (text :: rest) = .start final) :
    (∃ next awaiting', Advances arguments awaiting text next awaiting') ∨
      awaiting = none ∧ Item.ofText text = .terminator := by
  unfold Arguments.read at started
  split at started
  next switch value form =>
      split at started
      next given gives => exact .inl ⟨given, none, .value form gives⟩
      next => cases started
  next => cases started
  next form => exact .inr ⟨rfl, form⟩
  next value form =>
      split at started
      next placed places => exact .inl ⟨placed, none, .file form places⟩
      next => cases started
  next letter form =>
      split at started
      · cases started
      · split at started <;> cases started
  next name value form =>
      split at started
      next => cases started
      next => cases started
      next switch _ _ named =>
          split at started
          next valued => exact .inl ⟨arguments, some switch, .option form named valued⟩
          next =>
              split at started
              next raised raises => exact .inl ⟨raised, none, .flag form named raises⟩
              next => cases started
      next switch value named =>
          split at started
          next given gives => exact .inl ⟨given, none, .assignment form named gives⟩
          next => cases started
      next => cases started

theorem readFiles_of_read_nil (started : arguments.read awaiting [] = .start final) :
    awaiting = none ∧ arguments.readFiles [] = .start final := by
  cases awaiting with
  | none => exact ⟨rfl, started⟩
  | some switch => cases started

theorem finish_of_readFiles (started : arguments.readFiles texts = .start final) :
    final.finish = .start final := by
  induction texts generalizing arguments with
  | nil =>
      rw [readFiles, finish] at started
      split at started
      next => cases started
      next complete =>
          cases started
          exact if_neg complete
  | cons text rest induction =>
      rw [readFiles] at started
      split at started
      next => exact induction started
      next => cases started

private theorem finish_of_read
    (started : arguments.read awaiting texts = .start final) :
    final.finish = .start final := by
  induction texts generalizing arguments awaiting with
  | nil => exact finish_of_readFiles (readFiles_of_read_nil started).2
  | cons text rest induction =>
      rcases advances_of_read started with
        ⟨next, awaiting', advances⟩ | ⟨rfl, terminator⟩
      · rw [advances.read] at started
        exact induction started
      · simp only [read, terminator] at started
        exact finish_of_readFiles started

private theorem exists_file_of_read
    (started : arguments.read awaiting texts = .start final)
    (runs : final.run = true) : ∃ file, final.file = some file := by
  have complete := finish_of_read started
  rw [finish, runs] at complete
  cases found : final.file with
  | none =>
      rw [found] at complete
      cases complete
  | some file => exact ⟨file, rfl⟩

theorem place_eq_some (places : arguments.place text = some next) :
    next.run = arguments.run ∧
      arguments.onConsole.place text = some next.onConsole := by
  rw [place] at places
  split at places
  next => cases places
  next fresh =>
      cases places
      exact ⟨rfl, if_neg fresh⟩

theorem give_eq_some {switch : Switch}
    (gives : arguments.give switch text = some next) :
    next.run = arguments.run ∧
      arguments.onConsole.give switch text = some next.onConsole := by
  unfold give at gives
  split at gives
  next =>
      split at gives
      next capacity fresh value =>
          cases gives
          have fresh' : arguments.onConsole.capacity = none := fresh
          refine ⟨rfl, ?_⟩
          simp only [give, fresh', value]
          rfl
      next => cases gives
  next =>
      split at gives
      next steps fresh value =>
          cases gives
          have fresh' : arguments.onConsole.steps = none := fresh
          refine ⟨rfl, ?_⟩
          simp only [give, fresh', value]
          rfl
      next => cases gives
  next => cases gives

private theorem raise_eq_some {switch : Switch}
    (raises : arguments.raise switch = some next) :
    (next.run = arguments.run ∧
        arguments.onConsole.raise switch = some next.onConsole) ∨
      switch = .run ∧ arguments.run = false ∧
        next = { arguments with run := true } := by
  cases switch with
  | persist =>
      rw [raise] at raises
      split at raises
      next => cases raises
      next fresh =>
          cases raises
          exact .inl ⟨rfl, if_neg fresh⟩
  | run =>
      rw [raise] at raises
      split at raises
      next => cases raises
      next fresh =>
          cases raises
          exact .inr ⟨rfl, Bool.eq_false_iff.mpr fresh, rfl⟩
  | capacity | steps | help | version => cases raises

private theorem Advances.onConsole
    (advances : Advances arguments awaiting text next awaiting') :
    (next.run = arguments.run ∧
        Advances arguments.onConsole awaiting text next.onConsole awaiting') ∨
      text = runFlag ∧ awaiting = none ∧ awaiting' = none ∧
        arguments.run = false ∧ next = { arguments with run := true } := by
  cases advances with
  | value form gives =>
      obtain ⟨same, gives'⟩ := give_eq_some gives
      exact .inl ⟨same, .value form gives'⟩
  | file form places =>
      obtain ⟨same, places'⟩ := place_eq_some places
      exact .inl ⟨same, .file form places'⟩
  | option form named valued => exact .inl ⟨rfl, .option form named valued⟩
  | assignment form named gives =>
      obtain ⟨same, gives'⟩ := give_eq_some gives
      exact .inl ⟨same, .assignment form named gives'⟩
  | flag form named raises =>
      rcases raise_eq_some raises with ⟨same, raises'⟩ | ⟨rfl, idle, raised⟩
      · exact .inl ⟨same, .flag form named raises'⟩
      · have name := Switch.name_of_ofName? named
        subst name
        exact .inr ⟨Item.eq_of_ofText_eq_long form, rfl, rfl, idle, raised⟩

theorem readFiles_onConsole (started : arguments.readFiles texts = .start final) :
    final.run = arguments.run ∧
      arguments.onConsole.readFiles texts = .start final.onConsole := by
  induction texts generalizing arguments with
  | nil =>
      rw [readFiles, finish] at started
      split at started
      next => cases started
      next =>
          cases started
          exact ⟨rfl, rfl⟩
  | cons text rest induction =>
      rw [readFiles] at started
      split at started
      next placed places =>
          obtain ⟨same, opened⟩ := induction started
          obtain ⟨same', places'⟩ := place_eq_some places
          refine ⟨same.trans same', ?_⟩
          rw [readFiles, places']
          exact opened
      next => cases started

private theorem read_onConsole (runs : arguments.run = true)
    (started : arguments.read awaiting texts = .start final) :
    arguments.onConsole.read awaiting texts = .start final.onConsole := by
  induction texts generalizing arguments awaiting with
  | nil =>
      obtain ⟨rfl, files⟩ := readFiles_of_read_nil started
      exact (readFiles_onConsole files).2
  | cons text rest induction =>
      rcases advances_of_read started with
        ⟨next, awaiting', advances⟩ | ⟨rfl, terminator⟩
      · rw [advances.read] at started
        rcases advances.onConsole with ⟨same, advances'⟩ | ⟨_, _, _, idle, _⟩
        · rw [advances'.read]
          exact induction (same.trans runs) started
        · rw [runs] at idle
          cases idle
      · simp only [read, terminator] at started ⊢
        exact (readFiles_onConsole started).2

/-- Arguments for a run name it once, and without that text they are the same
arguments for a console. -/
theorem exists_read_onConsole (idle : arguments.run = false)
    (started : arguments.read awaiting texts = .start final)
    (runs : final.run = true) :
    ∃ front back, texts = front ++ runFlag :: back ∧
      arguments.read awaiting (front ++ back) = .start final.onConsole := by
  induction texts generalizing arguments awaiting with
  | nil =>
      obtain ⟨rfl, files⟩ := readFiles_of_read_nil started
      rw [(readFiles_onConsole files).1, idle] at runs
      cases runs
  | cons text rest induction =>
      rcases advances_of_read started with
        ⟨next, awaiting', advances⟩ | ⟨rfl, terminator⟩
      · rw [advances.read] at started
        rcases advances.onConsole with ⟨same, _⟩ | ⟨rfl, rfl, rfl, _, rfl⟩
        · obtain ⟨front, back, rfl, opened⟩ := induction (same.trans idle) started
          refine ⟨text :: front, back, rfl, ?_⟩
          rw [List.cons_append, advances.read]
          exact opened
        · have opened := read_onConsole rfl started
          have same : onConsole { arguments with run := true } = arguments := by
            rw [onConsole, ← idle]
          rw [same] at opened
          exact ⟨[], rest, rfl, opened⟩
      · simp only [read, terminator] at started
        rw [(readFiles_onConsole started).1, idle] at runs
        cases runs

private theorem sized_empty : empty.Sized := by
  intro capacity given
  cases given

private theorem one_le_of_capacityValue? {value : Text} {capacity : Nat}
    (asked : capacityValue? value = some capacity) : 1 ≤ capacity := by
  unfold capacityValue? at asked
  split at asked
  next number _ =>
      split at asked
      next bounds =>
          cases asked
          omega
      next => cases asked
  next => cases asked

theorem Sized.place (sized : arguments.Sized)
    (places : arguments.place text = some next) : next.Sized := by
  rw [Arguments.place] at places
  split at places
  next => cases places
  next =>
      cases places
      exact sized

theorem Sized.give {switch : Switch} (sized : arguments.Sized)
    (gives : arguments.give switch text = some next) : next.Sized := by
  unfold Arguments.give at gives
  split at gives
  next =>
      split at gives
      next capacity _ value =>
          cases gives
          intro capacity' same
          cases same
          exact one_le_of_capacityValue? value
      next => cases gives
  next =>
      split at gives
      next =>
          cases gives
          exact sized
      next => cases gives
  next => cases gives

theorem Sized.raise {switch : Switch} (sized : arguments.Sized)
    (raises : arguments.raise switch = some next) : next.Sized := by
  cases switch with
  | persist | run =>
      rw [Arguments.raise] at raises
      split at raises
      next => cases raises
      next =>
          cases raises
          exact sized
  | capacity | steps | help | version => cases raises

private theorem Advances.sized
    (advances : Advances arguments awaiting text next awaiting')
    (sized : arguments.Sized) : next.Sized := by
  cases advances with
  | value _ gives | assignment _ _ gives => exact sized.give gives
  | file _ places => exact sized.place places
  | option => exact sized
  | flag _ _ raises => exact sized.raise raises

theorem Sized.readFiles (sized : arguments.Sized)
    (started : arguments.readFiles texts = .start final) : final.Sized := by
  induction texts generalizing arguments with
  | nil =>
      rw [Arguments.readFiles, finish] at started
      split at started
      next => cases started
      next =>
          cases started
          exact sized
  | cons text rest induction =>
      rw [Arguments.readFiles] at started
      split at started
      next placed places => exact induction (sized.place places) started
      next => cases started

theorem Sized.read (sized : arguments.Sized)
    (started : arguments.read awaiting texts = .start final) : final.Sized := by
  induction texts generalizing arguments awaiting with
  | nil => exact sized.readFiles (readFiles_of_read_nil started).2
  | cons text rest induction =>
      rcases advances_of_read started with
        ⟨next, awaiting', advances⟩ | ⟨rfl, terminator⟩
      · rw [advances.read] at started
        exact induction (advances.sized sized) started
      · simp only [Arguments.read, terminator] at started
        exact sized.readFiles started

end Arguments

/-- What is documented of a reader that knows the options of the program. It takes no
capacity below one, a run needs a file, and the text that asks for a run does nothing
else. -/
structure Reader.Documented {Given : Type} (reader : Reader Given) (asking : Given) :
    Prop where
  sized {given : List Given} {arguments : Arguments}
    (accepted : reader given = .start arguments) : arguments.Sized
  file {given : List Given} {arguments : Arguments}
    (accepted : reader given = .start arguments) (runs : arguments.run = true) :
    ∃ path, arguments.file = some path
  withoutRun {given : List Given} {arguments : Arguments}
    (accepted : reader given = .start arguments) (runs : arguments.run = true) :
    ∃ front back, given = front ++ asking :: back ∧
      reader (front ++ back) = .start arguments.onConsole

theorem documented_ofArguments : Reader.Documented Invocation.ofArguments runFlag where
  sized accepted := Arguments.sized_empty.read accepted
  file accepted runs := Arguments.exists_file_of_read accepted runs
  withoutRun accepted runs := Arguments.exists_read_onConsole rfl accepted runs

end WordMachine.CommandLine
